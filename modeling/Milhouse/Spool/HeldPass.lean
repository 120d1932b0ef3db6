import Milhouse.Spool.HeldMove

/-!
# Milhouse — reconciliation, commit and retention keep published bytes

Besides moves, three things unlink a file: the cleanup of empty temporaries, the completion of a
retirement, and retention itself. A retirement unlinks only bytes with the digest of a tombstone,
and a tombstone's digest is that of bytes a prune had read and found fully expired (`Genuine`), so
where it destroys a publication the promise has ended.

* **`reconcilePass_held`**, **`commitSegment_held`**, **`retentionApply_held`** — published bytes are
  held, or expired, at every point of each section.
-/

namespace Milhouse

open Disk Interaction Interaction.Prog

/-- Every tombstone carries the digest of bytes that a prune found fully expired. -/
def Genuine (fmt : SegmentFormat) (s : SpoolState) : Prop :=
  ∀ b t, s.ledger.retirements.lookup b = some t → ∃ content,
    fmt.sha256 content = t.fileSha256 ∧ Expired fmt content s.history

/-- Bytes with this digest, if they are the publication's, have expired. -/
def RetiredDigest (fmt : SegmentFormat) (k : Publication) (digest : String) (s : SpoolState) :
    Prop :=
  digest = fmt.sha256 k.content → Expired fmt k.content s.history

/-! ## Which digests are retired -/

section Digests

variable {fmt : SegmentFormat} {scan : Scan fmt.Frame} {c : Candidate} {r : SegmentRecord}
  {ledger : List SegmentRecord} {retirements : List (String × Retirement)}
  {candidates copies : List Candidate} {b detail : String} {φ : String → Prop}

/-- Every retirement a scan collected expects a digest of `φ`. -/
def Scan.Expects {Frame : Type} (φ : String → Prop) (scan : Scan Frame) : Prop :=
  ∀ r ∈ scan.retirements, φ r.2.2

theorem Scan.Expects.anomaly (h : scan.Expects φ) (batchId : String) (day : Option Day)
    (kind detail : String) : (scan.anomaly batchId day kind detail).Expects φ := h

theorem Scan.Expects.tombstone (h : scan.Expects φ) (batchId : String) (day : Day) :
    (scan.tombstone batchId day).Expects φ := h

theorem queueQuarantine_yields {day : Day} {name : String} (h : scan.Expects φ) :
    (queueQuarantine fmt scan day name b detail).Yields (Scan.Expects φ) := by
  unfold queueQuarantine
  refine Yields.bind Yields.true fun found _ => ?_
  cases found <;> exact h

/-- A leaf of the inventory is expected with the digest it was certified by. -/
theorem inventoryLeaf_yields {leaf : Day × String} (h : scan.Expects φ) :
    (inventoryLeaf fmt scan leaf).Yields fun r => Scan.Expects φ r.2 := by
  unfold inventoryLeaf
  dsimp only
  split
  · refine .of_call fun r => ?_
    rcases r with e | f
    · exact (queueQuarantine_yields (h.anomaly _ _ _ _)).bind fun _ h' => h'
    · dsimp only
      split
      · exact h
      · exact (queueQuarantine_yields (h.anomaly _ _ _ _)).bind fun _ h' => h'
  · split <;> exact h

theorem verifyCommitted_yields (h : scan.Expects φ) :
    (verifyCommitted fmt scan c r).Yields (Scan.Expects φ) := by
  unfold verifyCommitted
  refine Yields.bind Yields.true fun x _ => ?_
  cases x with
  | error code =>
      dsimp only
      split
      · exact h
      · exact queueQuarantine_yields (h.anomaly _ _ _ _)
  | ok parsed =>
      dsimp only
      split
      · exact h
      · exact queueQuarantine_yields (h.anomaly _ _ _ _)

/-- An orphan is registered or queued with the digest of its bytes. -/
theorem reconcileOrphan_yields (h : scan.Expects φ) :
    (reconcileOrphan fmt scan c).Yields (Scan.Expects φ) := by
  unfold reconcileOrphan
  refine Yields.bind Yields.true fun x _ => ?_
  cases x with
  | error code =>
      dsimp only
      split
      · exact h
      · exact queueQuarantine_yields (h.anomaly _ _ _ _)
  | ok parsed =>
      dsimp only
      split
      · exact h
      · split
        · exact queueQuarantine_yields (h.anomaly _ _ _ _)
        · exact h

/-- A candidate is routed with a digest that the pass has read. -/
theorem routeCandidate_yields (h : scan.Expects φ)
    (hφ : ∀ t ∈ retirements, φ t.2.fileSha256) :
    (routeCandidate fmt ledger retirements candidates scan c).Yields
      fun r => Scan.Expects φ r.2 := by
  unfold routeCandidate
  split
  · exact h
  · split
    · exact (verifyCommitted_yields h).bind fun _ h' => h'
    · split
      · exact (reconcileOrphan_yields h).bind fun _ h' => h'
      · rename_i retirement hfound
        refine Yields.bind Yields.true fun digest _ => ?_
        split
        · intro x hx
          rcases List.mem_append.mp hx with hx | hx
          · exact h x hx
          · obtain rfl := List.mem_singleton.mp hx
            obtain ⟨t, ht, rfl⟩ := Option.map_eq_some_iff.mp hfound
            exact hφ t (List.mem_of_find?_eq_some ht)
        · exact (reconcileOrphan_yields (h.tombstone _ _)).bind fun _ h' => h'

theorem resolveConflict_yields (h : scan.Expects φ) :
    (resolveConflict fmt ledger candidates scan b).Yields fun r => Scan.Expects φ r.2 := by
  unfold resolveConflict queueCopies
  refine Yields.bind Yields.true fun keeper _ => Yields.bind Yields.true fun detail _ => ?_
  refine Yields.bind (ψ := fun r : Bool × Scan fmt.Frame => Scan.Expects φ r.2)
    (Yields.foldUntil (I := Scan.Expects φ) ?_ fun c _ scan' h' => ?_) fun _ h' => h'
  · split <;> exact h
  · split
    · exact h'
    · exact (queueQuarantine_yields h').bind fun _ h'' => h''

/-- **A pass expects only the digests of the tombstones it read.** -/
theorem classify_yields {leaves : List (Day × String)}
    (hφ : ∀ t ∈ retirements, φ t.2.fileSha256) :
    (classify fmt ledger retirements leaves).Yields (Scan.Expects φ) := by
  have hempty : (Scan.empty : Scan fmt.Frame).Expects φ := nofun
  have habsent : ∀ scan : Scan fmt.Frame, scan.Expects φ →
      (classifyAbsent fmt ledger retirements scan).Expects φ := by
    have hmissing : ∀ (rs : List SegmentRecord) (x : Scan fmt.Frame), x.Expects φ →
        (rs.foldl (fun x r => x.anomaly r.batchId (some r.day) "missing_file" "absent") x).Expects
          φ := by
      intro rs
      induction rs with
      | nil => exact fun x hx => hx
      | cons r rs ih => exact fun x hx => ih _ hx
    have hstale : ∀ (ts : List (String × Retirement)) (x : Scan fmt.Frame), x.Expects φ →
        (ts.foldl (fun x t => x.tombstone t.1 t.2.day) x).Expects φ := by
      intro ts
      induction ts with
      | nil => exact fun x hx => hx
      | cons t ts ih => exact fun x hx => ih _ hx
    exact fun scan hscan => hstale _ _ (hmissing _ _ hscan)
  unfold classify
  refine Yields.bind (Yields.foldUntil hempty fun leaf _ scan h => inventoryLeaf_yields h)
    fun scan₁ h₁ => ?_
  refine Yields.bind (Yields.foldUntil h₁ fun c _ scan h => routeCandidate_yields h hφ)
    fun scan₂ h₂ => ?_
  exact Yields.bind (Yields.foldUntil h₂ fun b _ scan h => resolveConflict_yields h)
    fun scan₃ h₃ => habsent scan₃ h₃

end Digests

/-! ## The sections -/

section Sections

variable {fmt : SegmentFormat} {k : Publication} {s s' : SpoolState}

/-- Interference that is calm leaves listed files genuine. -/
theorem Genuine.calm (h : Genuine fmt s) (hcalm : Calm s s') : Genuine fmt s' := by
  intro b t ht
  rw [hcalm.retirements] at ht
  obtain ⟨content, hdigest, hexpired⟩ := h b t ht
  exact ⟨content, hdigest, hexpired.mono hcalm.history⟩

/-- What a leaf opened as stays there. -/
theorem file_of_opened {p : Path} {f : File} {c : Choice}
    (hstep : s.perform (.readFile p) c = some (.ok f, s')) :
    ∃ g, s'.file p = some g ∧ g.content = f.content := by
  obtain ⟨rfl, hr⟩ := SpoolState.perform_readFile hstep
  rcases hr with hr | hr
  · obtain ⟨g, hg, hcontent, -⟩ := SpoolState.opened_ok hr.symm
    exact ⟨g, hg, hcontent⟩
  · cases hr

/-- Only an empty temporary is cleaned up. -/
theorem cleanStaging_held {cleanups : List (Day × String × Snapshot)} (h : Held k s) :
    HeldSafe fmt k (cleanStaging cleanups) (fun _ t => Held k t) s := by
  induction cleanups generalizing s with
  | nil => exact heldSafe_ret h h
  | cons c rest ih =>
      obtain ⟨day, name, snapshot⟩ := c
      unfold cleanStaging
      refine Keeps.seq (M := fun _ t => Held k t) ?_ fun cleaned t ht _ => ?_
      · unfold cleanupStaleReservation
        refine heldSafe_observe h trivial fun _ _ _ live s₂ _ _ h₂ => ?_
        split
        · exact heldSafe_ret h₂ h₂
        · refine heldSafe_observe h₂ trivial fun s₃ _ _ r s₄ hstep₄ _ h₄ => ?_
          rcases r with e | f
          · exact heldSafe_ret h₄ h₄
          · obtain ⟨g, hg, hcontent⟩ := file_of_opened hstep₄
            dsimp only
            split
            · exact heldSafe_ret h₄ h₄
            · rename_i hsnapshot
              have hempty : f.content = [] := by
                have hsnapshot := not_not.mp hsnapshot
                unfold failedStagingSnapshot at hsnapshot
                dsimp only at hsnapshot
                split at hsnapshot
                · rename_i hdebris
                  exact hdebris.2.2
                · cases hsnapshot
              have hne : g.content ≠ k.content := by
                rw [hcontent, hempty]
                exact fun heq => k.nonempty heq.symm
              refine heldSafe_op h₄ fun s₅ hcalm₅ _ _ unlinked s₆ _ =>
                ⟨spared_of_content (hcalm₅.file hg) hne, fun h₆ => ?_⟩
              split
              · exact heldSafe_ret h₆ h₆
              · refine heldSafe_op h₆ fun _ _ _ _ synced s₈ _ => ⟨trivial, fun h₈ => ?_⟩
                exact heldSafe_observe h₈ trivial fun _ _ _ bound _ _ _ h₉ => heldSafe_ret h₉ h₉
      · split
        · exact ih ht
        · exact heldSafe_ret ht ht

/-- Removing a file of other bytes leaves the published ones held. -/
theorem removeRegularFile_held {p : Path} {f : File} (h : Held k s) (hf : s.file p = some f)
    (hne : f.content ≠ k.content) :
    HeldSafe fmt k (removeRegularFile p) (fun _ t => Held k t) s := by
  unfold removeRegularFile
  refine heldSafe_observe h trivial fun s₁ _ _ r s₂ hstep₂ hcalm₂ h₂ => ?_
  rcases r with e | g
  · exact heldSafe_ret h₂ h₂
  · dsimp only
    split
    · exact heldSafe_ret h₂ h₂
    · refine heldSafe_op h₂ fun s₃ hcalm₃ _ _ unlinked s₄ _ =>
        ⟨spared_of_content (hcalm₃.file (hcalm₂.file hf)) hne, fun h₄ => ?_⟩
      split
      · exact heldSafe_ret h₄ h₄
      · exact heldSafe_op h₄ fun _ _ _ _ synced _ _ => ⟨trivial, fun h₅ => heldSafe_ret h₅ h₅⟩

theorem bookOp_spares {t : SpoolState} {o : SpoolOp} (h : BookOp o) : Spares k none t o := by
  cases o <;> trivial

/-- **A retirement unlinks only bytes with an expired digest.** -/
theorem completeRetirement_held {day : Day} {b expected : String} (h : Held k s)
    (hexpected : RetiredDigest fmt k expected s) :
    HeldSafe fmt k (completeRetirement fmt day b expected) (fun _ _ => True) s := by
  unfold completeRetirement
  refine Keeps.seq (M := fun r t => Calm s t ∧ Held k t ∧ ∀ digest, r = some digest →
    ∃ f, t.file (segmentPath day b) = some f ∧ fmt.sha256 f.content = digest) ?_
    fun digest t _ ⟨hcalm, ht, hfile⟩ => ?_
  · unfold rawSha256
    refine heldSafe_observe h trivial fun s₁ _ _ r s₂ hstep₂ hcalm₂ h₂ => ?_
    rcases r with e | f
    · exact heldSafe_ret h₂ ⟨hcalm₂, h₂, nofun⟩
    · obtain ⟨g, hg, hcontent⟩ := file_of_opened hstep₂
      dsimp only
      split
      · exact heldSafe_ret h₂ ⟨hcalm₂, h₂, nofun⟩
      · refine heldSafe_ret h₂ ⟨hcalm₂, h₂, fun digest hdigest => ⟨g, hg, ?_⟩⟩
        rw [hcontent]
        exact Option.some.inj hdigest
  · split
    · exact (heldSafe_of_only deleteTombstoneFenced_only (fun _ _ => bookOp_spares) ht).seq
        fun _ _ hu _ => heldSafe_ret hu trivial
    · rename_i hdigest
      obtain ⟨f, hf, hsame⟩ := hfile expected (not_not.mp hdigest)
      by_cases hcontent : f.content = k.content
      · refine Keeps.of_ended ((hexpected ?_).mono hcalm.history)
        rw [← hsame, hcontent]
      · refine (removeRegularFile_held ht hf hcontent).seq fun outcome u hu _ => ?_
        rcases outcome with _ | _ | _
        · exact heldSafe_op hu fun _ _ _ _ _ _ _ => ⟨trivial, fun h' => heldSafe_ret h' trivial⟩
        · exact heldSafe_ret hu trivial
        · exact heldSafe_ret hu trivial

/-- **The mutations of a pass keep published bytes held.** -/
theorem applyScan_held {scan : Scan fmt.Frame}
    (hsha : ∀ content, fmt.sha256 content = fmt.sha256 k.content → content = k.content)
    (h : Held k s) (hexpected : ∀ r ∈ scan.retirements, RetiredDigest fmt k r.2.2 s) :
    HeldSafe fmt k (applyScan fmt scan) (fun _ _ => True) s := by
  have hhistory : ∀ t t' : SpoolState, ∀ o c r, (s.history <+: t.history) →
      t.perform o c = some (r, t') → s.history <+: t'.history :=
    fun t t' o c r hpre hstep => hpre.trans (SpoolState.perform_change hstep).history
  unfold applyScan
  refine Keeps.seq (M := fun _ t => True ∧ s.history <+: t.history)
    (Keeps.frame (heldSafe_of_only registerOrphans_only (fun _ _ => bookOp_spares) h)
      registerOrphans_only (F := fun t => s.history <+: t.history)
      (fun _ _ hF hcalm => hF.trans hcalm.history)
      (fun t o c r t' _ hF hstep => hhistory t t' o c r hF hstep) (List.prefix_refl _))
    fun registered t ht hregistered => ?_
  have hpre := hregistered.2
  split
  · exact heldSafe_ret ht trivial
  · -- the retirements, with the history still extending the one the tombstones were read in
    refine Keeps.seq (M := fun _ u => s.history <+: u.history) (Keeps.foldUntil ht hpre ?_)
      fun failures₁ u hu _ => ?_
    · intro r hr failures u hu hpreᵤ
      refine Keeps.seq (M := fun _ v => True ∧ s.history <+: v.history)
        (Keeps.frame (completeRetirement_held hu fun heq =>
            (hexpected r hr heq).mono hpreᵤ)
          (completeRetirement_only (K := fun _ => True) trivial)
          (F := fun v => s.history <+: v.history)
          (fun _ _ hF hcalm => hF.trans hcalm.history)
          (fun v o c x v' _ hF hstep => hhistory v v' o c x hF hstep) hpreᵤ)
        fun detail v hv hdetail => ?_
      cases detail <;> exact heldSafe_ret hv hdetail.2
    refine Keeps.seq (M := fun _ _ => True) (Keeps.foldUntil hu trivial ?_)
      fun failures₂ v hv _ => ?_
    · intro t _ failures w hw _
      refine (heldSafe_of_only deleteTombstoneFenced_only (fun _ _ => bookOp_spares) hw).seq
        fun cleared x hx _ => ?_
      split <;> exact heldSafe_ret hx trivial
    refine Keeps.seq (M := fun _ _ => True) (Keeps.foldUntil hv trivial ?_)
      fun result w hw _ => heldSafe_ret hw trivial
    intro q _ result x hx _
    refine (moveToQuarantine_held hsha hx).seq fun outcome y hy _ => ?_
    cases outcome <;> exact heldSafe_ret hy trivial

/-- **A reconciliation pass keeps published bytes held.** -/
theorem reconcilePass_held
    (hsha : ∀ content, fmt.sha256 content = fmt.sha256 k.content → content = k.content)
    (h : Held k s) (hgenuine : Genuine fmt s) :
    HeldSafe fmt k (reconcilePass fmt) (fun _ _ => True) s := by
  unfold reconcilePass
  refine heldSafe_observe h trivial fun _ _ _ r s₂ _ hcalm₂ h₂ => ?_
  cases r with
  | none => exact heldSafe_ret h₂ trivial
  | some ledger =>
      dsimp only
      refine heldSafe_observe h₂ trivial fun s₃ hcalm₃ _ r s₄ hstep₄ _ h₄ => ?_
      have hgenuine₄ : Genuine fmt s₃ := (hgenuine.calm hcalm₂).calm hcalm₃
      obtain ⟨rfl, rfl | rfl⟩ := SpoolState.perform_readRetirements hstep₄
      swap
      · exact heldSafe_ret h₄ trivial
      -- every tombstone the pass reads carries an expired digest
      have hdigests : ∀ t ∈ s₄.ledger.retirements.entries.map fun e => (e.1, e.2),
          RetiredDigest fmt k t.2.fileSha256 s₄ := by
        intro t ht heq
        obtain ⟨⟨b, retirement⟩, hmem, rfl⟩ := List.mem_map.mp ht
        obtain ⟨content, hdigest, hexpired⟩ := hgenuine₄ b retirement
          (AList.mem_lookup_iff.mpr hmem)
        rw [hsha content (hdigest.trans heq)] at hexpired
        exact hexpired
      dsimp only
      refine heldSafe_observe h₄ trivial fun _ _ _ r s₅ _ hcalm₅ h₅ => ?_
      cases r with
      | none => exact heldSafe_ret h₅ trivial
      | some leaves =>
          dsimp only
          refine Keeps.seq (M := fun scan t => Scan.Expects
            (fun digest => RetiredDigest fmt k digest s₄) scan ∧ s₄.history <+: t.history) ?_
            fun scan u hu ⟨hexpects, hpre⟩ => ?_
          · refine Keeps.frame (Keeps.of_yields classify_only (classify_yields hdigests) ?_ h₅)
              classify_only (fun _ _ hF hcalm => hF.trans hcalm.history) ?_ hcalm₅.history
            · exact fun t o _ _ _ ho ha hstep =>
                HeldBut.calm ha (calm_of_observes ho (SpoolState.perform_change hstep))
            · exact fun t o _ _ _ _ hF hstep =>
                hF.trans (SpoolState.perform_change hstep).history
          split
          · exact heldSafe_ret hu trivial
          · refine Keeps.seq (Keeps.frame (cleanStaging_held hu)
              (cleanStaging_only (K := fun _ => True) fun _ _ => trivial)
              (F := fun t => s₄.history <+: t.history)
              (fun _ _ hF hcalm => hF.trans hcalm.history)
              (fun _ _ _ _ _ _ hF hstep => hF.trans (SpoolState.perform_change hstep).history)
              hpre) fun stuck v _ ⟨hv, hpreᵥ⟩ => ?_
            cases stuck with
            | some day => exact heldSafe_ret hv trivial
            | none =>
                exact applyScan_held hsha hv fun r hr heq => (hexpects r hr heq).mono hpreᵥ

theorem publishOp_spares {t : SpoolState} {o : SpoolOp} (h : PublishOp o) :
    Spares k none t o := by
  cases o with
  | truncate p => exact Or.inl (Or.inr (Or.inl ⟨h.1, not_names_of_writerStage h.2⟩))
  | rename tree d src dst replace =>
      obtain ⟨rfl, hstage, rfl⟩ := h
      exact ⟨nofun, Or.inl (Or.inl (Or.inr (Or.inl ⟨rfl, not_names_of_writerStage hstage⟩)))⟩
  | unlink p => exact h.elim
  | _ => trivial

/-- **A commit keeps published bytes held.** -/
theorem commitSegment_held {header : SegmentHeaderV1} {frames : List fmt.Frame} {stamp : Stamp}
    (hsha : ∀ content, fmt.sha256 content = fmt.sha256 k.content → content = k.content)
    (h : Held k s) (hgenuine : Genuine fmt s) :
    HeldSafe fmt k (commitSegment fmt header frames stamp) (fun _ _ => True) s := by
  unfold commitSegment
  split
  · exact heldSafe_ret h trivial
  · split
    · exact heldSafe_ret h trivial
    · refine (reconcilePass_held hsha h hgenuine).seq fun report t ht _ => ?_
      cases report with
      | error e => exact heldSafe_ret ht trivial
      | ok report =>
          dsimp only
          split
          · exact heldSafe_ret ht trivial
          · split
            · exact heldSafe_ret ht trivial
            · refine heldSafe_op ht fun _ _ _ _ shared s₂ _ => ⟨trivial, fun h₂ => ?_⟩
              split
              · exact heldSafe_ret h₂ trivial
              · unfold publishAndRecord
                refine heldSafe_op h₂ fun _ _ _ _ opened s₃ _ => ⟨trivial, fun h₃ => ?_⟩
                split
                · exact heldSafe_ret h₃ trivial
                · refine (heldSafe_of_only (publishSegmentBytes_only rfl)
                    (fun _ _ => publishOp_spares) h₃).seq fun outcome u hu _ => ?_
                  rcases outcome with _ | _ | _
                  · refine heldSafe_op hu fun _ _ _ _ _ s₄ _ => ⟨trivial, fun h₄ => ?_⟩
                    refine heldSafe_op h₄ fun _ _ _ _ inserted s₅ _ => ⟨trivial, fun h₅ => ?_⟩
                    split
                    · exact heldSafe_op h₅ fun _ _ _ _ _ _ _ =>
                        ⟨trivial, fun h₆ => heldSafe_ret h₆ trivial⟩
                    · exact heldSafe_ret h₅ trivial
                  · exact heldSafe_ret hu trivial
                  · exact heldSafe_ret hu trivial

/-- Retention removes a file it has just read as fully expired. -/
theorem applyOne_held {r : SegmentRecord} {now : Stamp} (h : Held k s) :
    HeldSafe fmt k (applyOne fmt r now) (fun _ _ => True) s := by
  unfold applyOne
  refine Keeps.seq (M := fun x t => Held k t ∧ ∀ parsed, x = .ok parsed →
    ∃ f, t.file (segmentPath r.day r.batchId) = some f ∧ fmt.read f.content = .ok parsed) ?_
    fun x t _ ⟨ht, hx⟩ => ?_
  · unfold readTrustedSegment
    refine heldSafe_observe h trivial fun s₁ _ _ y s₂ hstep₂ _ h₂ => ?_
    have hfail : ∀ code, HeldSafe fmt k
        (.ret (.error code) : SpoolProg (Except String (ParsedSegment fmt.Frame)))
        (fun x t => Held k t ∧ ∀ parsed, x = .ok parsed →
          ∃ f, t.file (segmentPath r.day r.batchId) = some f ∧ fmt.read f.content = .ok parsed)
        s₂ := fun code => heldSafe_ret h₂ ⟨h₂, nofun⟩
    rcases y with (_ | _ | _) | f
    · exact hfail _
    · exact hfail _
    · exact hfail _
    · dsimp only
      split
      · exact hfail _
      · split
        · exact hfail _
        · split
          · exact hfail _
          · split
            · exact hfail _
            · rename_i parsed hread
              refine heldSafe_ret h₂ ⟨h₂, fun parsed' heq => ?_⟩
              obtain rfl := Except.ok.inj heq
              rcases SpoolState.perform_readTrusted hstep₂ with ⟨rfl, hr⟩ | ⟨-, e, hr⟩
              · obtain ⟨g, hg, hcontent, -⟩ := SpoolState.opened_ok hr.symm
                exact ⟨g, hg, by rw [hcontent]; exact hread⟩
              · cases hr
  · cases x with
    | error e => exact heldSafe_ret ht trivial
    | ok parsed =>
        obtain ⟨f, hf, hread⟩ := hx parsed rfl
        dsimp only
        split
        · exact heldSafe_ret ht trivial
        · split
          · exact heldSafe_ret ht trivial
          · rename_i hexpired
            unfold pruneSegment
            refine Keeps.op ht fun s₁ hcalm₁ (h₁ : Held k s₁) c deleted s₂ hstep => ?_
            cases deleted with
            | false =>
                obtain rfl := SpoolState.perform_pruneSegment_failed hstep
                exact Or.inr ⟨h₁, heldSafe_ret h₁ trivial⟩
            | true =>
                have hf₂ : s₂.file (segmentPath r.day r.batchId) = some f := by
                  obtain ⟨ledger, -, rfl⟩ := SpoolState.perform_pruneSegment hstep
                  exact hcalm₁.file hf
                have h₂ : Held k s₂ := HeldBut.change (x := none) (o := .pruneSegment r now) h₁
                  trivial (SpoolState.perform_change hstep)
                by_cases hcontent : f.content = k.content
                · -- the publication itself: every record of it had expired
                  obtain ⟨ledger, -, rfl⟩ := SpoolState.perform_pruneSegment hstep
                  refine Or.inl ⟨parsed, hcontent ▸ hread, r, now, ?_, by simpa using hexpired⟩
                  simp
                · refine Or.inr ⟨h₂, ?_⟩
                  refine (removeRegularFile_held h₂ hf₂ hcontent).seq fun outcome u hu _ => ?_
                  rcases outcome with _ | _ | _
                  · exact heldSafe_op hu fun _ _ _ _ _ _ _ =>
                      ⟨trivial, fun h' => heldSafe_ret h' trivial⟩
                  · exact heldSafe_ret hu trivial
                  · exact heldSafe_ret hu trivial

/-- **Retention keeps published bytes held until they expire.** -/
theorem retentionApply_held {now : Stamp} (h : Held k s) :
    HeldSafe fmt k (retentionApply fmt now) (fun _ _ => True) s := by
  unfold retentionApply
  refine heldSafe_observe h trivial fun _ _ _ r s₂ _ _ h₂ => ?_
  cases r with
  | none => exact heldSafe_ret h₂ trivial
  | some records =>
      dsimp only
      refine Keeps.seq (M := fun _ _ => True) (Keeps.foldUntil h₂ trivial ?_)
        fun results t ht _ => heldSafe_ret ht trivial
      intro record _ results t ht _
      exact (applyOne_held ht).seq fun x u hu _ => heldSafe_ret hu trivial

end Sections

end Milhouse
