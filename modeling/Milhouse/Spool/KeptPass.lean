import Milhouse.Spool.Kept
import Milhouse.Spool.Operations

/-!
# Milhouse — reconciliation, commit and retention keep an acknowledged segment

The pass decides before it acts, so the argument has two halves. What classification queues for a
move, a retirement or a cleanup is never the live file of an acknowledged commitment (`ScanSafe`):
its row routes it to verification, where the trusted reader accepts it, and where a shape the reader
refuses keeps it from being queued. The mutations then touch only what was queued.

* **`classify_kept`** — classification is `ScanSafe`;
* **`reconcilePass_kept`**, **`commitSegment_kept`**, **`retentionApply_kept`** — the promise holds
  at every point of each section.
-/

namespace Milhouse

open Disk Interaction Interaction.Prog

/-- The leaf passes the envelope that a digest classification requires. -/
def Certifiable (a : Commitment) (s : SpoolState) : Prop :=
  ∃ f, s.stat a.path = some f ∧ f.shape = .private ∧ f.content.length ≤ maxSegmentFileBytes

/-- The same row and the same required exporters. -/
structure SameSegment (r r' : SegmentRecord) : Prop where
  batchId : r.batchId = r'.batchId
  row : r.toSegmentRow = r'.toSegmentRow
  exporters : ∀ e, e ∈ r.exporters.map (·.1) ↔ e ∈ r'.exporters.map (·.1)

/-- The ledger as a pass read it has the commitment's row. -/
def Known (a : Commitment) (ledger : List SegmentRecord) : Prop :=
  ∃ r, recordOf ledger a.record.batchId = some r ∧ SameSegment r a.record

/-- Nothing queued is the commitment's file. -/
structure ScanSafe {Frame : Type} (a : Commitment) (scan : Scan Frame) : Prop where
  quarantines : ∀ q ∈ scan.quarantines, (⟨.pending, q.day, q.name⟩ : Path) ≠ a.path
  retirements : ∀ r ∈ scan.retirements, segmentPath r.1 r.2.1 ≠ a.path
  cleanups : ∀ c ∈ scan.cleanups, (⟨.pending, c.1, c.2.1⟩ : Path) ≠ a.path

section Facts

variable {fmt : SegmentFormat} {a : Commitment} {s : SpoolState} {Frame : Type}

theorem SameSegment.trans {r r' r'' : SegmentRecord} (h : SameSegment r r')
    (h' : SameSegment r' r'') : SameSegment r r'' :=
  ⟨h.batchId.trans h'.batchId, h.row.trans h'.row, fun e => (h.exporters e).trans (h'.exporters e)⟩

/-- Agreement reads a record only up to its delivery statuses. -/
theorem SameSegment.agrees_eq {r r' : SegmentRecord} (h : SameSegment r r')
    (parsed : ParsedSegment Frame) (day : Day) (b : String) :
    agrees parsed day b r = agrees parsed day b r' := by
  obtain ⟨row, bid, exps⟩ := r
  obtain ⟨row', bid', exps'⟩ := r'
  obtain ⟨rfl, rfl, hexp⟩ := h
  have hleft : (parsed.header.requiredExporters.all fun e => e ∈ exps.map (·.1)) =
      parsed.header.requiredExporters.all fun e => e ∈ exps'.map (·.1) := by
    congr 1
    funext e
    exact decide_eq_decide.mpr (hexp e)
  have hright : (exps.all fun e => e.1 ∈ parsed.header.requiredExporters) =
      exps'.all fun e => e.1 ∈ parsed.header.requiredExporters := by
    rw [Bool.eq_iff_iff]
    simp only [List.all_eq_true, decide_eq_true_eq]
    constructor
    · intro hall x hx
      obtain ⟨y, hy, hyx⟩ := List.mem_map.mp ((hexp x.1).mpr (List.mem_map_of_mem hx))
      exact hyx ▸ hall y hy
    · intro hall x hx
      obtain ⟨y, hy, hyx⟩ := List.mem_map.mp ((hexp x.1).mp (List.mem_map_of_mem hx))
      exact hyx ▸ hall y hy
  unfold agrees
  dsimp only
  rw [hleft, hright]

/-- A live commitment's record is the one the ledger shows for its batch id. -/
theorem Recorded.same (h : Recorded a s) {r : SegmentRecord} (hr : r ∈ s.ledger.records)
    (hid : r.batchId = a.record.batchId) : SameSegment r a.record := by
  obtain ⟨hrow, heq⟩ := Ledger.mem_records.mp hr
  rw [hid, h.row] at hrow
  refine ⟨hid, (Option.some.inj hrow).symm, fun e => ?_⟩
  rw [heq, ← h.exporters e, ← hid]
  exact Ledger.mem_loadExporters_map

/-- The row of a live commitment is in the ledger that a pass reads. -/
theorem Live.known (h : Live a s) : Known a s.ledger.records := by
  have hmem : s.ledger.record a.record.batchId a.record.toSegmentRow ∈ s.ledger.records :=
    Ledger.mem_records.mpr ⟨h.row, rfl⟩
  unfold Known recordOf
  cases hfind : s.ledger.records.find? (·.batchId = a.record.batchId) with
  | none =>
      have := List.find?_eq_none.mp hfind _ hmem
      simp [Ledger.record] at this
  | some r =>
      refine ⟨r, rfl, h.same (List.mem_of_find?_eq_some hfind) ?_⟩
      simpa using List.find?_some hfind

/-- A segment path is that of the commitment exactly if day and batch are. -/
theorem path_eq_iff {day : Day} {b : String} :
    segmentPath day b = a.path ↔ day = a.record.day ∧ b = a.record.batchId := by
  constructor
  · intro h
    obtain ⟨-, hday, hname⟩ := Path.mk.inj h
    exact ⟨hday, segmentName_injective hname⟩
  · rintro ⟨rfl, rfl⟩
    rfl

/-- A temporary's leaf is not the commitment's. -/
theorem ne_path_of_stage (hid : matchesBatchId a.record.batchId = true) {tree : Tree} {day : Day}
    {name : String} (hname : stagePrefix.toList <+: name.toList) :
    (⟨tree, day, name⟩ : Path) ≠ a.path := by
  intro h
  obtain ⟨-, -, rfl⟩ := Path.mk.inj h
  exact stagePrefix_not_prefix hid hname

end Facts

/-! ## Classification -/

section Classification

variable {fmt : SegmentFormat} {a : Commitment} {s : SpoolState}

/-- A leaf the envelope refuses is not classified by content. -/
theorem certifyLeaf_kept {p : Path} (hlive : Live a s) :
    KeptSafe fmt a (certifyLeaf fmt p)
      (fun r t => Still a s t ∧ (p = a.path → r.isSome → Certifiable a s)) s := by
  unfold certifyLeaf
  refine keptSafe_observe hlive trivial fun s₁ hstill₁ hlive₁ c r s' hstep hstill hlive' =>
    Or.inr ?_
  obtain ⟨-, rfl | rfl⟩ := SpoolState.perform_readFile hstep
  · unfold SpoolState.opened
    cases hstat : s₁.stat p with
    | none => exact keptSafe_ret hlive' ⟨hstill, fun _ h => by cases h⟩
    | some f =>
        dsimp only
        split
        · rename_i hshape
          refine keptSafe_ret hlive' ⟨hstill, fun hp _ => ?_⟩
          rw [hp, hstill₁] at hstat
          exact ⟨f, hstat, hshape⟩
        · exact keptSafe_ret hlive' ⟨hstill, fun _ h => by cases h⟩
  · exact keptSafe_ret hlive' ⟨hstill, fun _ h => by cases h⟩

/-- The trusted read of the commitment's file gives its bytes, or finds it outside the envelope. -/
theorem readTrustedSegment_kept {p : Path} {inventoried : Bool} (hlive : Live a s)
    (hacc : Accepts fmt a) :
    KeptSafe fmt a (readTrustedSegment fmt p inventoried)
      (fun r t => Still a s t ∧ (p = a.path →
        (∃ parsed, r = .ok parsed ∧ fmt.read a.content = .ok parsed) ∨
        ((∃ e, r = .error e) ∧ (inventoried = true → ¬ Certifiable a s)))) s := by
  unfold readTrustedSegment
  refine keptSafe_observe hlive trivial fun s₁ hstill₁ hlive₁ c r s' hstep hstill hlive' => ?_
  rcases SpoolState.perform_readTrusted hstep with ⟨rfl, rfl⟩ | ⟨rfl, e, rfl⟩
  · refine Or.inr ?_
    unfold SpoolState.opened
    by_cases hp : p = a.path
    · subst hp
      obtain ⟨f, hf, hcontent⟩ := hlive₁.stat
      obtain ⟨parsed, hread, -⟩ := hacc
      -- outside the envelope the reader refuses, and so does every digest classification
      have hrefused : (f.shape ≠ .private ∨ maxSegmentFileBytes < f.content.length) →
          ¬ Certifiable a s := by
        rintro hbad ⟨g, hg, hshape, hsize⟩
        rw [hstill₁.symm.trans hf] at hg
        obtain rfl := Option.some.inj hg
        rcases hbad with hbad | hbad
        · exact hbad hshape
        · omega
      rw [hf]
      dsimp only
      split
      · rename_i hspecial
        exact keptSafe_ret hlive' ⟨hstill, fun _ => Or.inr
          ⟨⟨_, rfl⟩, fun _ => hrefused (Or.inl (by rw [hspecial]; decide))⟩⟩
      · split
        · rename_i hloose
          exact keptSafe_ret hlive' ⟨hstill, fun _ => Or.inr
            ⟨⟨_, rfl⟩, fun _ => hrefused (Or.inl hloose)⟩⟩
        · split
          · rename_i hsize
            exact keptSafe_ret hlive' ⟨hstill, fun _ => Or.inr
              ⟨⟨_, rfl⟩, fun _ => hrefused (Or.inr hsize)⟩⟩
          · rw [hcontent, hread]
            exact keptSafe_ret hlive' ⟨hstill, fun _ => Or.inl ⟨parsed, rfl, rfl⟩⟩
    · have hret : ∀ x : Except String (ParsedSegment fmt.Frame),
          KeptSafe fmt a (.ret x) (fun r t => Still a s t ∧ (p = a.path →
            (∃ parsed, r = .ok parsed ∧ fmt.read a.content = .ok parsed) ∨
            ((∃ e, r = .error e) ∧ (inventoried = true → ¬ Certifiable a s)))) s' :=
        fun x => keptSafe_ret hlive' ⟨hstill, fun h => absurd h hp⟩
      cases s'.stat p with
      | none => exact hret _
      | some f =>
          dsimp only
          repeat' split
          all_goals exact hret _
  · by_cases hended : p = a.path ∧ inventoried = true
    · -- a pass that fails to read the file for another reason than its bytes ends the promise
      refine Or.inl ?_
      obtain ⟨hp, hinventoried⟩ := hended
      unfold Unread
      rw [SpoolState.history_remember, List.drop_append, hp, hinventoried]
      refine List.mem_append_right _ ?_
      rw [Nat.sub_eq_zero_of_le hlive₁.since]
      simp
    · refine Or.inr ?_
      have hpost : ∀ code, p = a.path →
          (∃ parsed, (.error code : Except String (ParsedSegment fmt.Frame)) = .ok parsed ∧
            fmt.read a.content = .ok parsed) ∨
          ((∃ e, (.error code : Except String (ParsedSegment fmt.Frame)) = .error e) ∧
            (inventoried = true → ¬ Certifiable a s)) :=
        fun code hp => Or.inr ⟨⟨code, rfl⟩, fun h => absurd ⟨hp, h⟩ hended⟩
      cases e <;> exact keptSafe_ret hlive' ⟨hstill, hpost _⟩

variable {scan : Scan fmt.Frame}

theorem ScanSafe.anomaly (h : ScanSafe a scan) (batchId : String) (day : Option Day)
    (kind detail : String) : ScanSafe a (scan.anomaly batchId day kind detail) :=
  ⟨h.quarantines, h.retirements, h.cleanups⟩

theorem ScanSafe.tombstone (h : ScanSafe a scan) (batchId : String) (day : Day) :
    ScanSafe a (scan.tombstone batchId day) := ⟨h.quarantines, h.retirements, h.cleanups⟩

/-- Queueing a leaf keeps the commitment, if the leaf is another one or cannot be certified. -/
theorem queueQuarantine_kept {day : Day} {name b detail : String} (hlive : Live a s)
    (hscan : ScanSafe a scan)
    (hrefused : (⟨.pending, day, name⟩ : Path) = a.path → ¬ Certifiable a s) :
    KeptSafe fmt a (queueQuarantine fmt scan day name b detail)
      (fun scan' t => Still a s t ∧ ScanSafe a scan') s := by
  unfold queueQuarantine
  refine (certifyLeaf_kept hlive).seq fun found t hlive' ⟨hstill, hfound⟩ => ?_
  cases found with
  | none => exact keptSafe_ret hlive' ⟨hstill, hscan.quarantines, hscan.retirements, hscan.cleanups⟩
  | some x =>
      refine keptSafe_ret hlive' ⟨hstill, fun q hq => ?_, hscan.retirements, hscan.cleanups⟩
      rcases List.mem_append.mp hq with hq | hq
      · exact hscan.quarantines q hq
      · obtain rfl := List.mem_singleton.mp hq
        exact fun hp => hrefused hp (hfound hp rfl)

/-- A live commitment's candidate is verified, or at least not queued. -/
theorem verifyCommitted_kept {c : Candidate} {r : SegmentRecord} (hlive : Live a s)
    (hacc : Accepts fmt a) (hscan : ScanSafe a scan)
    (hr : c.path = a.path → SameSegment r a.record) :
    KeptSafe fmt a (verifyCommitted fmt scan c r)
      (fun scan' t => Still a s t ∧ ScanSafe a scan') s := by
  unfold verifyCommitted
  refine (readTrustedSegment_kept hlive hacc).seq fun x t hlive' ⟨hstill, hx⟩ => ?_
  have hcertifiable : Certifiable a t → Certifiable a s := by
    rintro ⟨f, hf, h⟩
    exact ⟨f, hstill.symm.trans hf, h⟩
  have hqueue : ∀ detail, (c.path = a.path → ¬ Certifiable a s) →
      KeptSafe fmt a (queueQuarantine fmt (scan.anomaly c.batchId (some c.day) "corrupt_file" detail)
        c.day (segmentName c.batchId) c.batchId detail)
        (fun scan' t => Still a s t ∧ ScanSafe a scan') t := by
    intro detail hrefused
    refine (queueQuarantine_kept hlive' (hscan.anomaly c.batchId (some c.day) "corrupt_file" detail)
      fun hp hc => hrefused hp (hcertifiable hc)).mono ?_
    exact fun _ u hu => ⟨hu.1.trans hstill, hu.2⟩
  cases x with
  | error code =>
      dsimp only
      split
      · exact keptSafe_ret hlive' ⟨hstill, hscan.quarantines, hscan.retirements, hscan.cleanups⟩
      · refine hqueue code fun hp => ?_
        rcases hx hp with ⟨parsed, heq, -⟩ | ⟨-, hrefused⟩
        · cases heq
        · exact hrefused rfl
  | ok parsed =>
      dsimp only
      split
      · exact keptSafe_ret hlive' ⟨hstill, hscan.quarantines, hscan.retirements, hscan.cleanups⟩
      · rename_i hdisagree
        refine hqueue "ledger_mismatch" fun hp => ?_
        rcases hx hp with ⟨parsed', heq, hread⟩ | ⟨⟨e, heq⟩, -⟩
        · -- the accepted bytes agree with the record, so this branch is not taken
          obtain rfl := Except.ok.inj heq
          obtain ⟨parsed'', hread', hagrees⟩ := hacc
          rw [hread] at hread'
          obtain rfl := Except.ok.inj hread'
          obtain ⟨hday, hb⟩ := path_eq_iff.mp hp
          rw [(hr hp).agrees_eq, hday, hb] at hdisagree
          exact absurd hagrees hdisagree
        · cases heq

/-- An orphan is not the commitment's file. -/
theorem reconcileOrphan_kept {c : Candidate} (hlive : Live a s) (hacc : Accepts fmt a)
    (hscan : ScanSafe a scan) (hne : c.path ≠ a.path) :
    KeptSafe fmt a (reconcileOrphan fmt scan c)
      (fun scan' t => Still a s t ∧ ScanSafe a scan') s := by
  unfold reconcileOrphan
  refine (readTrustedSegment_kept hlive hacc).seq fun x t hlive' ⟨hstill, _⟩ => ?_
  have hqueue : ∀ detail,
      KeptSafe fmt a (queueQuarantine fmt
        (scan.anomaly c.batchId (some c.day) "corrupt_orphan" detail) c.day
        (segmentName c.batchId) c.batchId detail)
        (fun scan' t => Still a s t ∧ ScanSafe a scan') t := by
    intro detail
    refine (queueQuarantine_kept hlive'
      (hscan.anomaly c.batchId (some c.day) "corrupt_orphan" detail)
      fun hp => absurd hp hne).mono ?_
    exact fun _ u hu => ⟨hu.1.trans hstill, hu.2⟩
  cases x with
  | error code =>
      dsimp only
      split
      · exact keptSafe_ret hlive' ⟨hstill, hscan.quarantines, hscan.retirements, hscan.cleanups⟩
      · exact hqueue code
  | ok parsed =>
      dsimp only
      split
      · exact keptSafe_ret hlive' ⟨hstill, hscan.quarantines, hscan.retirements, hscan.cleanups⟩
      · split
        · exact hqueue "MH_SPOOL_EGRESS"
        · exact keptSafe_ret hlive' ⟨hstill, hscan.quarantines, hscan.retirements, hscan.cleanups⟩

/-- A leaf queued by the inventory has the name of a temporary. -/
theorem inventoryLeaf_kept {leaf : Day × String} (hid : matchesBatchId a.record.batchId = true)
    (hlive : Live a s) (hscan : ScanSafe a scan) :
    KeptSafe fmt a (inventoryLeaf fmt scan leaf) (fun r t => Still a s t ∧ ScanSafe a r.2) s := by
  obtain ⟨day, name⟩ := leaf
  unfold inventoryLeaf
  dsimp only
  split
  · rename_i hstage
    have hne : (⟨.pending, day, name⟩ : Path) ≠ a.path := ne_path_of_stage hid hstage
    refine keptSafe_observe hlive trivial fun s₁ _ _ c r s' hstep hstill hlive' => Or.inr ?_
    have hqueue : KeptSafe fmt a (do
        let scan' ← queueQuarantine fmt (scan.anomaly "" (some day) "stale_temp" "staged_temporary")
          day name "" "stale_temp"
        pure (true, scan')) (fun r t => Still a s t ∧ ScanSafe a r.2) s' := by
      refine (queueQuarantine_kept hlive'
        (hscan.anomaly "" (some day) "stale_temp" "staged_temporary") fun hp => absurd hp hne).seq ?_
      exact fun scan' t hlive'' ht => keptSafe_ret hlive'' ⟨ht.1.trans hstill, ht.2⟩
    rcases r with e | f
    · exact hqueue
    · dsimp only
      split
      · refine keptSafe_ret hlive' ⟨hstill, hscan.quarantines, hscan.retirements, fun c hc => ?_⟩
        rcases List.mem_append.mp hc with hc | hc
        · exact hscan.cleanups c hc
        · obtain rfl := List.mem_singleton.mp hc
          exact hne
      · exact hqueue
  · have hsame : ∀ x : Scan fmt.Frame, ScanSafe a x → KeptSafe fmt a (.ret (true, x))
        (fun r t => Still a s t ∧ ScanSafe a r.2) s := fun x hx => keptSafe_ret hlive ⟨rfl, hx⟩
    split <;> exact hsame _ ⟨hscan.quarantines, hscan.retirements, hscan.cleanups⟩

theorem rawSha256_kept {p : Path} (hlive : Live a s) :
    KeptSafe fmt a (rawSha256 fmt p) (fun _ t => Still a s t) s := by
  unfold rawSha256
  refine keptSafe_observe hlive trivial fun s₁ _ _ c r s' hstep hstill hlive' => Or.inr ?_
  rcases r with e | f
  · exact keptSafe_ret hlive' hstill
  · dsimp only
    split <;> exact keptSafe_ret hlive' hstill

variable {ledger : List SegmentRecord} {retirements : List (String × Retirement)}
  {candidates copies : List Candidate}

/-- The route of one candidate: a live commitment's row routes it to verification. -/
theorem routeCandidate_kept {c : Candidate} (hlive : Live a s) (hacc : Accepts fmt a)
    (hknown : Known a ledger) (hscan : ScanSafe a scan) :
    KeptSafe fmt a (routeCandidate fmt ledger retirements candidates scan c)
      (fun r t => Still a s t ∧ ScanSafe a r.2) s := by
  have hpair : ∀ {t : SpoolState} {p : SpoolProg (Scan fmt.Frame)}, Still a s t →
      KeptSafe fmt a p (fun scan' u => Still a t u ∧ ScanSafe a scan') t →
      KeptSafe fmt a (p >>= fun x => pure (true, x)) (fun r u => Still a s u ∧ ScanSafe a r.2) t :=
    fun hst hp => hp.seq fun scan' u hlive' hu => keptSafe_ret hlive' ⟨hu.1.trans hst, hu.2⟩
  unfold routeCandidate
  split
  · exact keptSafe_ret hlive ⟨rfl, hscan.quarantines, hscan.retirements, hscan.cleanups⟩
  · split
    · rename_i r hr
      refine hpair rfl (verifyCommitted_kept hlive hacc hscan fun hp => ?_)
      obtain ⟨r', hr', hsame⟩ := hknown
      rw [(path_eq_iff.mp hp).2, hr'] at hr
      obtain rfl := Option.some.inj hr
      exact hsame
    · rename_i hnone
      -- without a row the candidate is another segment's
      have hne : c.batchId ≠ a.record.batchId := by
        intro hb
        obtain ⟨r', hr', -⟩ := hknown
        rw [hb, hr'] at hnone
        cases hnone
      have hpath : c.path ≠ a.path := fun hp => hne (path_eq_iff.mp hp).2
      split
      · exact hpair rfl (reconcileOrphan_kept hlive hacc hscan hpath)
      · refine (rawSha256_kept hlive).seq fun digest t hlive' hstill => ?_
        split
        · refine keptSafe_ret hlive' ⟨hstill, hscan.quarantines, fun x hx => ?_, hscan.cleanups⟩
          rcases List.mem_append.mp hx with hx | hx
          · exact hscan.retirements x hx
          · obtain rfl := List.mem_singleton.mp hx
            exact hpath
        · exact hpair hstill (reconcileOrphan_kept hlive' hacc
            (hscan.tombstone c.batchId c.day) hpath)

/-- A file that can be certified now could be certified before. -/
theorem Still.certifiable {t : SpoolState} (h : Still a s t) (hc : Certifiable a t) :
    Certifiable a s := by
  obtain ⟨f, hf, hrest⟩ := hc
  exact ⟨f, h.symm.trans hf, hrest⟩

/-- Among conflicting copies a live commitment's file is the keeper, or at least not queued. -/
theorem findKeeper_kept {b : String} (hlive : Live a s) (hacc : Accepts fmt a)
    (hknown : Known a ledger) (hcopies : ∀ c ∈ copies, c.batchId = b) :
    KeptSafe fmt a (findKeeper fmt ledger b copies) (fun keeper t => Still a s t ∧
      ∀ c ∈ copies, c.path = a.path → some c = keeper ∨ ¬ Certifiable a s) s := by
  by_cases hfile : ∃ c ∈ copies, c.path = a.path
  · obtain ⟨c, hc, hpath⟩ := hfile
    obtain ⟨hday, hb⟩ := path_eq_iff.mp hpath
    have honly : ∀ c' ∈ copies, c'.day = a.record.day → c' = c := by
      intro c' hc' hday'
      have hid := (hcopies c' hc').trans (hcopies c hc).symm
      cases c; cases c'
      simp_all
    have hba : b = a.record.batchId := (hcopies c hc).symm.trans hb
    obtain ⟨r, hr, hsame⟩ := hknown
    have hrday : r.day = a.record.day := congrArg SegmentRow.day hsame.row
    have hfind : copies.find? (·.day = r.day) = some c := by
      cases hf : copies.find? (·.day = r.day) with
      | none =>
          have := List.find?_eq_none.mp hf c hc
          simp [hday, hrday] at this
      | some c' =>
          have hc'day : c'.day = r.day := by simpa using List.find?_some hf
          rw [honly c' (List.mem_of_find?_eq_some hf) (hc'day.trans hrday)]
    unfold findKeeper
    rw [hba, hr]
    dsimp only
    rw [hfind]
    refine (readTrustedSegment_kept hlive hacc).seq fun x t hlive' ⟨hstill, hx⟩ => ?_
    -- the copies at the commitment's path are the one found
    have hdone : ∀ keeper : Option Candidate, (some c = keeper ∨ ¬ Certifiable a s) →
        KeptSafe fmt a (.ret keeper) (fun keeper t => Still a s t ∧
          ∀ c ∈ copies, c.path = a.path → some c = keeper ∨ ¬ Certifiable a s) t := by
      intro keeper hkeeper
      refine keptSafe_ret hlive' ⟨hstill, fun c' hc' hpath' => ?_⟩
      rw [honly c' hc' (path_eq_iff.mp hpath').1]
      exact hkeeper
    rcases hx hpath with ⟨parsed, rfl, hread⟩ | ⟨⟨e, rfl⟩, hrefused⟩
    · obtain ⟨parsed', hread', hagrees⟩ := hacc
      rw [hread] at hread'
      obtain rfl := Except.ok.inj hread'
      have hagrees' : agrees parsed c.day a.record.batchId r = true := by
        rw [hsame.agrees_eq, hday]
        exact hagrees
      dsimp only
      rw [if_pos hagrees']
      exact hdone _ (Or.inl rfl)
    · exact hdone _ (Or.inr (hrefused rfl))
  · have hnone : ∀ c ∈ copies, c.path ≠ a.path := fun c hc hp => hfile ⟨c, hc, hp⟩
    have hdone : ∀ (keeper : Option Candidate) (t : SpoolState), Live a t → Still a s t →
        KeptSafe fmt a (.ret keeper) (fun keeper t => Still a s t ∧
          ∀ c ∈ copies, c.path = a.path → some c = keeper ∨ ¬ Certifiable a s) t :=
      fun keeper t hl hst => keptSafe_ret hl ⟨hst, fun c hc hp => absurd hp (hnone c hc)⟩
    unfold findKeeper
    split
    · exact hdone _ s hlive rfl
    · split
      · exact hdone _ s hlive rfl
      · refine (readTrustedSegment_kept hlive hacc).seq fun x t hlive' ⟨hstill, _⟩ => ?_
        cases x <;> exact hdone _ t hlive' hstill

theorem conflictDetail_kept {first : Option String} (hlive : Live a s) :
    KeptSafe fmt a (conflictDetail fmt copies first) (fun _ t => Still a s t) s := by
  induction copies generalizing first s with
  | nil => exact keptSafe_ret hlive rfl
  | cons c rest ih =>
      unfold conflictDetail
      refine (rawSha256_kept hlive).seq fun digest t hlive' hstill => ?_
      cases digest with
      | none => exact keptSafe_ret hlive' hstill
      | some digest =>
          dsimp only
          split
          · exact keptSafe_ret hlive' hstill
          · exact (ih hlive').mono fun _ u hu => hu.trans hstill

/-- Queueing the copies of a conflict spares the keeper. -/
theorem queueCopies_kept {b detail : String} {keeper : Option Candidate} (hlive : Live a s)
    (hscan : ScanSafe a scan)
    (hkeeper : ∀ c ∈ copies, c.path = a.path → some c = keeper ∨ ¬ Certifiable a s) :
    KeptSafe fmt a (queueCopies fmt b detail keeper copies scan)
      (fun scan' t => Still a s t ∧ ScanSafe a scan') s := by
  unfold queueCopies
  refine Keeps.foldUntil (I := fun scan' t => Still a s t ∧ ScanSafe a scan') hlive
    ⟨rfl, hscan⟩ ?_
  intro c hc scan' t hlive' ⟨hstill, hscan'⟩
  split
  · exact keptSafe_ret hlive' ⟨hstill, hscan'⟩
  · rename_i hnot
    refine (queueQuarantine_kept hlive' hscan' fun hp hcert => ?_).seq
      fun scan'' u hlive'' hu => keptSafe_ret hlive'' ⟨hu.1.trans hstill, hu.2⟩
    rcases hkeeper c hc hp with heq | hrefused
    · exact hnot heq
    · exact hrefused (hstill.certifiable hcert)

/-- A conflict never queues the file of a live commitment. -/
theorem resolveConflict_kept {b : String} (hlive : Live a s) (hacc : Accepts fmt a)
    (hknown : Known a ledger) (hscan : ScanSafe a scan) :
    KeptSafe fmt a (resolveConflict fmt ledger candidates scan b)
      (fun r t => Still a s t ∧ ScanSafe a r.2) s := by
  have hcopies : ∀ c ∈ copiesOf candidates b, c.batchId = b := by
    intro c hc
    simpa using (List.mem_filter.mp hc).2
  unfold resolveConflict
  refine (findKeeper_kept hlive hacc hknown hcopies).seq fun keeper t hlive' ⟨hstill, hkeeper⟩ => ?_
  refine (conflictDetail_kept hlive').seq fun detail u hlive'' hstill' => ?_
  have hscan' : ScanSafe a
      (if keeper.isSome then { scan with healthy := scan.healthy + 1 } else scan) := by
    split
    · exact ⟨hscan.quarantines, hscan.retirements, hscan.cleanups⟩
    · exact hscan
  have hst : Still a s u := hstill'.trans hstill
  refine (queueCopies_kept hlive'' hscan' fun c hc hp => ?_).seq
    fun scan' v hlive3 hv => keptSafe_ret hlive3 ⟨hv.1.trans hst, hv.2⟩
  exact (hkeeper c hc hp).imp_right fun hrefused hcert => hrefused (hst.certifiable hcert)

/-- Classifying what is absent queues no file. -/
theorem classifyAbsent_safe (hscan : ScanSafe a scan) :
    ScanSafe a (classifyAbsent fmt ledger retirements scan) := by
  have hmissing : ∀ (rs : List SegmentRecord) (x : Scan fmt.Frame), ScanSafe a x →
      ScanSafe a (rs.foldl
        (fun x r => x.anomaly r.batchId (some r.day) "missing_file" "absent") x) := by
    intro rs
    induction rs with
    | nil => exact fun x hx => hx
    | cons r rs ih => exact fun x hx => ih _ ⟨hx.quarantines, hx.retirements, hx.cleanups⟩
  have hstale : ∀ (ts : List (String × Retirement)) (x : Scan fmt.Frame), ScanSafe a x →
      ScanSafe a (ts.foldl (fun x t => x.tombstone t.1 t.2.day) x) := by
    intro ts
    induction ts with
    | nil => exact fun x hx => hx
    | cons t ts ih => exact fun x hx => ih _ ⟨hx.quarantines, hx.retirements, hx.cleanups⟩
  exact hstale _ _ (hmissing _ _ hscan)

/-- **Classification never queues the file of a live commitment.** -/
theorem classify_kept {leaves : List (Day × String)} (hid : matchesBatchId a.record.batchId = true)
    (hlive : Live a s) (hacc : Accepts fmt a) (hknown : Known a ledger) :
    KeptSafe fmt a (classify fmt ledger retirements leaves) (fun scan _ => ScanSafe a scan) s := by
  have hempty : ScanSafe a (Scan.empty : Scan fmt.Frame) := by
    constructor <;> intro x hx <;> cases hx
  unfold classify
  refine Keeps.seq (M := fun scan _ => ScanSafe a scan)
    (Keeps.foldUntil hlive hempty ?_) fun scan₁ t₁ hlive₁ hscan₁ => ?_
  · intro leaf _ x t hl hx
    exact (inventoryLeaf_kept hid hl hx).mono fun _ _ h => h.2
  refine Keeps.seq (M := fun scan _ => ScanSafe a scan)
    (Keeps.foldUntil hlive₁ hscan₁ ?_) fun scan₂ t₂ hlive₂ hscan₂ => ?_
  · intro c _ x t hl hx
    exact (routeCandidate_kept hl hacc hknown hx).mono fun _ _ h => h.2
  refine Keeps.seq (M := fun scan _ => ScanSafe a scan)
    (Keeps.foldUntil hlive₂ hscan₂ ?_) fun scan₃ t₃ hlive₃ hscan₃ => ?_
  · intro b _ x t hl hx
    exact (resolveConflict_kept hl hacc hknown hx).mono fun _ _ h => h.2
  exact keptSafe_ret hlive₃ (classifyAbsent_safe hscan₃)

end Classification

/-! ## Mutation -/

section Mutation

variable {fmt : SegmentFormat} {a : Commitment} {s : SpoolState}

/-- An operation that destroys other leaves only is harmless. -/
theorem harmless_of_touches (hid : matchesBatchId a.record.batchId = true) {o : SpoolOp}
    (ho : Touches (· ≠ a.path) o) : Harmless a o := by
  cases o with
  | unlink p =>
      rcases ho with hne | htree | hstage
      · exact hne
      · rintro rfl
        cases htree
      · exact ne_path_of_stage hid hstage
  | truncate p => exact ne_path_of_stage hid ho
  | rename tree d src dst replace =>
      refine ⟨?_, fun hreplace => ne_path_of_stage hid (ho.2 hreplace)⟩
      rcases ho.1 with hne | hstage
      · exact hne
      · exact ne_path_of_stage hid hstage
  | pruneSegment r now => exact ho.elim
  | _ => trivial

/-- **A reconciliation pass keeps the promise at every point.** -/
theorem reconcilePass_kept (hid : matchesBatchId a.record.batchId = true) (hacc : Accepts fmt a)
    (hlive : Live a s) : KeptSafe fmt a (reconcilePass fmt) (fun _ _ => True) s := by
  unfold reconcilePass
  refine keptSafe_harmless_op hlive trivial fun s₁ _ hlive₁ c r s' hstep hlive' => ?_
  obtain ⟨-, rfl | rfl⟩ := SpoolState.perform_readLedger hstep
  swap
  · exact keptSafe_ret hlive' trivial
  have hknown := hlive₁.known
  dsimp only
  refine keptSafe_harmless_op hlive' trivial fun s₂ _ _ c₂ r₂ t₂ _ hlive₂ => ?_
  cases r₂ with
  | none => exact keptSafe_ret hlive₂ trivial
  | some retirements =>
      dsimp only
      refine keptSafe_harmless_op hlive₂ trivial fun s₃ _ _ c₃ r₃ t₃ _ hlive₃ => ?_
      cases r₃ with
      | none => exact keptSafe_ret hlive₃ trivial
      | some leaves =>
          dsimp only
          refine (classify_kept hid hlive₃ hacc hknown).seq fun scan u hliveᵤ hscan => ?_
          split
          · exact keptSafe_ret hliveᵤ trivial
          · refine (keptSafe_of_harmless ((cleanStaging_only hscan.cleanups).mono fun _ =>
              harmless_of_touches hid) hliveᵤ).seq
              fun stuck v hliveᵥ _ => ?_
            cases stuck with
            | some day => exact keptSafe_ret hliveᵥ trivial
            | none =>
                exact keptSafe_of_harmless ((applyScan_only hscan.retirements
                  hscan.quarantines).mono fun _ => harmless_of_touches hid) hliveᵥ

end Mutation

/-! ## Commit and retention -/

section Sections

variable {fmt : SegmentFormat} {a : Commitment} {s : SpoolState}

/-- Publishing and recording another segment is harmless: no name is replaced, no row rewritten. -/
theorem publishAndRecord_harmless {r : SegmentRecord} {content : Bytes}
    (hid : matchesBatchId a.record.batchId = true) :
    (publishAndRecord r content).Only (Harmless a) := by
  unfold publishAndRecord
  refine .call trivial fun opened => ?_
  split
  · trivial
  · refine ((publishSegmentBytes_only rfl).mono fun _ ho =>
      harmless_of_touches hid (touches_of_publishOp ho)).bind fun outcome => ?_
    rcases outcome with _ | _ | _
    · refine .call trivial fun _ => .call trivial fun inserted => ?_
      split
      · exact .call trivial fun _ => trivial
      · trivial
    · trivial
    · trivial

/-- **A commit keeps the promise of every earlier one.** -/
theorem commitSegment_kept {header : SegmentHeaderV1} {frames : List fmt.Frame} {stamp : Stamp}
    (hid : matchesBatchId a.record.batchId = true) (hacc : Accepts fmt a) (hlive : Live a s) :
    KeptSafe fmt a (commitSegment fmt header frames stamp) (fun _ _ => True) s := by
  unfold commitSegment
  split
  · exact keptSafe_ret hlive trivial
  · split
    · exact keptSafe_ret hlive trivial
    · refine (reconcilePass_kept hid hacc hlive).seq fun report t hlive' _ => ?_
      cases report with
      | error e => exact keptSafe_ret hlive' trivial
      | ok report =>
          dsimp only
          split
          · exact keptSafe_ret hlive' trivial
          · split
            · exact keptSafe_ret hlive' trivial
            · refine keptSafe_harmless_op hlive' trivial fun _ _ _ _ shared _ _ hlive'' => ?_
              split
              · exact keptSafe_ret hlive'' trivial
              · exact keptSafe_of_harmless (publishAndRecord_harmless hid) hlive''

/-- A prune by a record of the fully expired bytes ends the promise. -/
theorem overdue_of_prune {parsed : ParsedSegment fmt.Frame} {r : SegmentRecord} {now : Stamp}
    {ledger : Ledger} (h : Recorded a s) (hread : fmt.read a.content = .ok parsed)
    (hexpired : fullyExpired fmt parsed now = true) :
    Overdue fmt a ((s.setLedger ledger).remember (.pruned r now)) := by
  refine ⟨parsed, hread, r, now, ?_, hexpired⟩
  rw [SpoolState.history_remember, List.drop_append]
  refine List.mem_append_right _ ?_
  rw [SpoolState.history_setLedger, Nat.sub_eq_zero_of_le h.since]
  simp

/-- Retention removes the commitment's row only at or after the expiry of every record. -/
theorem applyOne_kept {r : SegmentRecord} {now : Stamp}
    (hid : matchesBatchId a.record.batchId = true) (hacc : Accepts fmt a) (hlive : Live a s)
    (hr : r.batchId = a.record.batchId → SameSegment r a.record) :
    KeptSafe fmt a (applyOne fmt r now) (fun _ _ => True) s := by
  unfold applyOne
  refine (readTrustedSegment_kept hlive hacc).seq fun x t hlive' ⟨hstill, hx⟩ => ?_
  cases x with
  | error e => exact keptSafe_ret hlive' trivial
  | ok parsed =>
      dsimp only
      split
      · exact keptSafe_ret hlive' trivial
      · split
        · exact keptSafe_ret hlive' trivial
        · rename_i hexpired
          unfold pruneSegment
          by_cases hb : r.batchId = a.record.batchId
          · refine Keeps.op hlive' fun s₁ _ hlive₁ c deleted s' hstep => ?_
            cases deleted with
            | true =>
                -- the prune is the end of the promise
                obtain ⟨ledger, hprune, rfl⟩ := SpoolState.perform_pruneSegment hstep
                have hpath : segmentPath r.day r.batchId = a.path :=
                  path_eq_iff.mpr ⟨congrArg SegmentRow.day (hr hb).row, hb⟩
                have hread : fmt.read a.content = .ok parsed := by
                  rcases hx hpath with ⟨parsed', heq, hread⟩ | ⟨⟨e, heq⟩, -⟩
                  · rw [hread, ← Except.ok.inj heq]
                  · cases heq
                refine Or.inl (Or.inr (overdue_of_prune hlive₁.toRecorded hread (by simpa using hexpired)))
            | false =>
                obtain rfl := SpoolState.perform_pruneSegment_failed hstep
                exact Or.inr ⟨hlive₁, keptSafe_ret hlive₁ trivial⟩
          · have hne : segmentPath r.day r.batchId ≠ a.path := fun h => hb (path_eq_iff.mp h).2
            refine keptSafe_harmless_op hlive' hb fun s₁ _ _ c deleted s' _ hlive'' => ?_
            split
            · exact keptSafe_ret hlive'' trivial
            · refine (keptSafe_of_harmless ((removeRegularFile_only (K := (· ≠ a.path)) hne).mono fun _ =>
              harmless_of_touches hid) hlive'').seq
                fun outcome u hliveᵤ _ => ?_
              rcases outcome with _ | _ | _
              · exact keptSafe_harmless_op hliveᵤ trivial fun _ _ _ _ _ _ _ hl =>
                  keptSafe_ret hl trivial
              · exact keptSafe_ret hliveᵤ trivial
              · exact keptSafe_ret hliveᵤ trivial

/-- **Retention keeps the promise at every point.** -/
theorem retentionApply_kept {now : Stamp} (hid : matchesBatchId a.record.batchId = true)
    (hacc : Accepts fmt a) (hlive : Live a s) :
    KeptSafe fmt a (retentionApply fmt now) (fun _ _ => True) s := by
  unfold retentionApply
  refine keptSafe_harmless_op hlive trivial fun s₁ _ hlive₁ c r s' hstep hlive' => ?_
  obtain ⟨-, rfl | rfl⟩ := SpoolState.perform_readLedger hstep
  · dsimp only
    refine (Keeps.foldUntil (I := fun _ _ => True) hlive' trivial ?_).seq
      fun results t hl _ => keptSafe_ret hl trivial
    intro record hrecord results t hl _
    exact (applyOne_kept hid hacc hl fun hb => hlive₁.same hrecord hb).seq
      fun x u hu _ => keptSafe_ret hu trivial
  · exact keptSafe_ret hlive' trivial

end Sections

/-! ## The row

Whatever becomes of the file, its row leaves the ledger only by a prune, and a prune comes after a
trusted read of bytes with the digest of the row. Where nothing else has that digest these are the
committed bytes, and every record in them has expired. -/

section Row

variable {fmt : SegmentFormat} {a : Commitment} {s : SpoolState}

theorem unpruned_of_touches {K : Path → Prop} {o : SpoolOp} (h : Touches K o) : Unpruned a o := by
  cases o with
  | pruneSegment => exact h.elim
  | _ => trivial

/-- Retention removes the row only at or after the expiry of every record. -/
theorem applyOne_recorded {r : SegmentRecord} {now : Stamp}
    (hdigest : fmt.sha256 a.content = a.record.fileSha256)
    (hsha : ∀ other, fmt.sha256 other = fmt.sha256 a.content → other = a.content)
    (h : Recorded a s) (hr : r.batchId = a.record.batchId → SameSegment r a.record) :
    (applyOne fmt r now).Keeps (rowKept fmt a) (fun _ _ => True) s := by
  unfold applyOne
  refine Keeps.seq (Keeps.of_yields readTrustedSegment_only readTrustedSegment_yields ?_ h)
    fun x t (ht : Recorded a t) hx => ?_
  · exact fun _ _ _ _ _ ho hrec hstep => Recorded.change hrec
      (unpruned_of_touches (K := fun _ => True) (touches_of_observes ho))
      (SpoolState.perform_change hstep)
  cases x with
  | error e => exact Keeps.ret ht trivial
  | ok parsed =>
      dsimp only
      split
      · exact Keeps.ret ht trivial
      · rename_i hagrees
        split
        · exact Keeps.ret ht trivial
        · rename_i hexpired
          unfold pruneSegment
          refine Keeps.op ht fun s₁ _ (h₁ : Recorded a s₁) c deleted s' hstep => ?_
          cases deleted with
          | false =>
              obtain rfl := SpoolState.perform_pruneSegment_failed hstep
              exact Or.inr ⟨h₁, Keeps.ret h₁ trivial⟩
          | true =>
              obtain ⟨ledger, hprune, rfl⟩ := SpoolState.perform_pruneSegment hstep
              by_cases hb : r.batchId = a.record.batchId
              · -- the bytes read have the digest of the row, so they are the committed ones
                obtain ⟨content, hcontent⟩ := hx parsed rfl
                have hsame : fmt.sha256 content = fmt.sha256 a.content := by
                  rw [hdigest, ← congrArg SegmentRow.fileSha256 (hr hb).row,
                    ← (fmt.read_size hcontent).2]
                  simp [agrees] at hagrees
                  tauto
                rw [hsha content hsame] at hcontent
                exact Or.inl (overdue_of_prune h₁ hcontent (by simpa using hexpired))
              · have hkept : Recorded a ((s₁.setLedger ledger).remember (.pruned r now)) :=
                  (h₁.prune hprune hb).of_same rfl (List.prefix_append _ _)
                refine Or.inr ⟨hkept, recordedSafe_of_only ?_ hkept⟩
                refine Only.bind ((removeRegularFile_only (K := fun _ => True) trivial).mono
                  fun _ => unpruned_of_touches) fun outcome => ?_
                rcases outcome with _ | _ | _
                · exact .call trivial fun _ => trivial
                · trivial
                · trivial

/-- **Retention keeps the row at every point.** -/
theorem retentionApply_recorded {now : Stamp}
    (hdigest : fmt.sha256 a.content = a.record.fileSha256)
    (hsha : ∀ other, fmt.sha256 other = fmt.sha256 a.content → other = a.content)
    (h : Recorded a s) :
    (retentionApply fmt now).Keeps (rowKept fmt a) (fun _ _ => True) s := by
  unfold retentionApply
  refine Keeps.op h fun s₁ _ (h₁ : Recorded a s₁) c r s' hstep => ?_
  obtain ⟨rfl, rfl | rfl⟩ := SpoolState.perform_readLedger hstep
  · refine Or.inr ⟨h₁, ?_⟩
    dsimp only
    refine (Keeps.foldUntil (I := fun _ _ => True) h₁ trivial ?_).seq
      fun results t hr _ => Keeps.ret hr trivial
    intro record hrecord results t hr _
    exact (applyOne_recorded hdigest hsha hr fun hb => h₁.same hrecord hb).seq
      fun x u hu _ => Keeps.ret hu trivial
  · exact Or.inr ⟨h₁, Keeps.ret h₁ trivial⟩

end Row

end Milhouse
