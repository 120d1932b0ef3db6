import Milhouse.Spool.Spared

/-!
# Milhouse — the audit against the pass

The audit walks the ledger, the pass walks the files, and the two meet in the trusted read of a
record's file (`accepts`). They differ in one thing: the audit takes a day directory as it is, while
the pass first hardens one whose mode is stricter than 0700. So the segments a pass counts are those
the audit finds intact in the tree with its directories hardened.

* **`verifySegment_none`** — what the audit requires of a segment;
* **`accepts_spared`** — a pass makes no other file acceptable, and keeps those it must not move;
* **`verify_agrees`** — the audit before the pass, the count of the pass, and the audit after it;
* **`verified_everywhere`** — a segment the audit finds intact passes the checks of the replay and of
  the retention preview.
-/

namespace Milhouse.Verify

open Interaction Interaction.Prog

/-- A format whose reader has counted the frames it returns. -/
structure CountedFormat extends CheckedFormat where
  read_count : ∀ {b s}, read b = .ok s → s.frames.length = s.header.recordCount

/-! ## What the audit requires -/

section Audit

variable {fmt : SegmentFormat} {t : RestingSpool} {record : SegmentRecord}

theorem openDay_ok {day : Day} : t.openDay day = .ok () ↔ t.pending.opens = true ∧
    (t.store.dirs.lookup (.pending, day)).isSome ∧ t.days day = .private := by
  unfold RestingSpool.openDay
  cases hopens : t.pending.opens with
  | false => simp
  | true =>
      cases hdir : t.store.dirs.lookup (.pending, day) with
      | none => simp
      | some dir =>
          cases hshape : t.days day with
          | stricter opens => cases opens <;> simp
          | «private» => simp
          | loose => simp

/-- A directory with a file is there. -/
theorem dir_of_file {s : SpoolState} {p : Path} (h : (s.file p).isSome) :
    (s.dirs.lookup (p.tree, p.day)).isSome := by
  unfold SpoolState.file SpoolState.dir at h
  cases hdir : s.dirs.lookup (p.tree, p.day) with
  | none =>
      rw [hdir] at h
      simp [Disk.Dir.empty] at h
  | some dir => rfl

/-- **A segment is intact** exactly where the reader gets to its directory, the directory is private
and the file agrees with the record. -/
theorem verifySegment_none : verifySegment fmt t record = none ↔
    accepts fmt t.store (named record) record = true ∧ t.pending.opens = true ∧
      t.days record.day = .private := by
  have hverify : verifySegment fmt t record = none ↔ t.openDay record.day = .ok () ∧
      accepts fmt t.store (named record) record = true := by
    unfold verifySegment readTrusted accepts
    have hpath : (named record).path = segmentPath record.day record.batchId := rfl
    rw [hpath]
    cases hopen : t.openDay record.day with
    | error code => simp
    | ok _ =>
        dsimp only
        cases hread : Retention.trustedSegment fmt t.store
            (segmentPath record.day record.batchId) with
        | error code => simp
        | ok parsed =>
            show (if agrees parsed record.day record.batchId record then none
              else some "MH_SPOOL_VERIFY") = none ↔
              _ ∧ agrees parsed record.day record.batchId record = true
            cases agrees parsed record.day record.batchId record <;> simp
  rw [hverify, openDay_ok]
  constructor
  · rintro ⟨⟨hopens, -, hday⟩, haccepts⟩
    exact ⟨haccepts, hopens, hday⟩
  · rintro ⟨haccepts, hopens, hday⟩
    exact ⟨⟨hopens, dir_of_file (accepts_true haccepts).2.2, hday⟩, haccepts⟩

theorem mem_intactIds {b : String} : b ∈ intactIds fmt t ↔
    ∃ record ∈ t.store.ledger.records, record.batchId = b ∧ verifySegment fmt t record = none := by
  unfold intactIds verifySpool
  simp only [List.filter_map, List.map_map, List.mem_map, List.mem_filter, Function.comp_apply,
    Option.isNone_iff_eq_none]
  constructor
  · rintro ⟨record, ⟨hrecord, hcode⟩, hb⟩
    exact ⟨record, hrecord, hb, hcode⟩
  · rintro ⟨record, hrecord, hb, hcode⟩
    exact ⟨record, ⟨hrecord, hcode⟩, hb⟩

/-- A directory the inventory does not refuse is private once it is hardened. -/
theorem repaired_private {shape : DirShape} (h : shape ≠ .loose) : shape.repaired = .private := by
  cases shape with
  | «private» => rfl
  | stricter opens => rfl
  | loose => exact absurd rfl h

/-- In a hardened tree the audit finds intact what the pass counts. -/
theorem mem_intactIds_repaired (hlistable : t.Listable) {b : String} :
    b ∈ intactIds fmt t.repaired ↔ b ∈ healthyIds fmt t.store := by
  rw [mem_intactIds, mem_healthyIds]
  constructor
  · rintro ⟨record, hrecord, rfl, hcode⟩
    exact ⟨record, recordFor_of_mem hrecord, (verifySegment_none.mp hcode).1⟩
  · rintro ⟨record, hrecord, haccepts⟩
    obtain ⟨hmem, hb⟩ := recordFor_eq_some hrecord
    refine ⟨record, hmem, hb, verifySegment_none.mpr ⟨haccepts, ?_, ?_⟩⟩
    · show t.pending.repaired.opens = true
      rw [repaired_private hlistable.pending]
      rfl
    · exact repaired_private (hlistable.days _ (dir_of_file (accepts_true haccepts).2.2))

end Audit

/-! ## What a pass leaves to the audit -/

section After

variable {fmt : SegmentFormat} {s u : SpoolState} {vital : Path → Prop} {rs : List SegmentRecord}
  {c : Candidate} {record record' : SegmentRecord}

/-- Agreement reads a record only up to its delivery statuses. -/
theorem accepts_congr (h : SameSegment record record') :
    accepts fmt s c record = accepts fmt s c record' := by
  unfold accepts
  split
  · exact h.agrees_eq _ _ _
  · rfl

theorem trusted_congr {p : Path} (h : u.stat p = s.stat p) :
    Retention.trustedSegment fmt u p = Retention.trustedSegment fmt s p := by
  unfold Retention.trustedSegment
  rw [h]

/-- **No file becomes acceptable** in a pass: it was there before, and a second name it had then it
still has. -/
theorem stat_spared (h : Spared s vital rs u) (hid : matchesBatchId c.batchId = true) {f : File}
    (halone : Alone u c.path f) : u.stat c.path = s.stat c.path := by
  have hfile : s.file c.path = some f := by
    have hstage := stagePrefix_not_prefix hid
    rcases h.receding c.path rfl hstage with hsame | hnone
    · exact hsame ▸ halone.1
    · rw [halone.1] at hnone
      cases hnone
  have hbefore : Alone s c.path f := by
    refine ⟨hfile, fun name g hname hg hinode => ?_⟩
    have htwin : u.file ⟨c.path.tree, c.path.day, name⟩ = some g :=
      (h.shared _ (Shared.twin rfl hfile hname hg hinode)).trans hg
    exact halone.2 name g hname htwin hinode
  rw [stat_of_alone halone, stat_of_alone hbefore]

/-- What is acceptable after a pass was so before. -/
theorem accepts_spared (h : Spared s vital rs u) (haccepts : accepts fmt u c record = true) :
    accepts fmt s c record = true := by
  have hid := (accepts_true haccepts).2.1
  have hstat : u.stat c.path = s.stat c.path := by
    unfold accepts at haccepts
    split at haccepts
    · rename_i parsed hread
      obtain ⟨f, halone⟩ := alone_of_trusted hread
      exact stat_spared h hid halone
    · cases haccepts
  unfold accepts at haccepts ⊢
  rw [← trusted_congr hstat]
  exact haccepts

/-- A vital file reads as it did. -/
theorem trusted_vital (hvital : Vital s vital) (h : Spared s vital rs u) {p : Path} (hp : vital p) :
    Retention.trustedSegment fmt u p = Retention.trustedSegment fmt s p := by
  obtain ⟨f, halone⟩ := hvital.alone p hp
  exact trusted_congr ((stat_of_alone (h.vital p f hp halone)).trans (stat_of_alone halone).symm)

/-- The row of an adopted orphan agrees with its file. -/
theorem agrees_reconciled {Frame : Type} (o : Orphan Frame)
    (hbatch : o.parsed.header.batchId = o.batchId) :
    agrees o.parsed o.day o.batchId (reconciledRecord o) = true := by
  simp [agrees, reconciledRecord, hbatch, Function.comp_def]

variable {report : ReconciliationReport} {scan : Scan fmt.Frame}

/-- **A registered orphan** is acceptable after the pass, for any record of its row. -/
theorem accepts_registered (h : Completed fmt s report scan u) {o : Orphan fmt.Frame}
    (ho : o ∈ scan.registrations) (hsame : SameSegment record (reconciledRecord o)) :
    accepts fmt u (named record) record = true := by
  obtain ⟨-, -, -, hadopt⟩ := h.classified.registrations o ho
  have hnamed : named record = ⟨o.day, o.batchId⟩ := by
    unfold named
    rw [hsame.batchId, hsame.row]
    rfl
  have hread : Retention.trustedSegment fmt u (segmentPath o.day o.batchId) = .ok o.parsed :=
    (trusted_vital (vital_vitalOf h.classified) h.spared (Or.inr ⟨o, ho, rfl⟩)).trans hadopt.read
  rw [accepts_congr hsame, hnamed]
  unfold accepts
  have hpath : (⟨o.day, o.batchId⟩ : Candidate).path = segmentPath o.day o.batchId := rfl
  rw [hpath, hread]
  exact agrees_reconciled o hadopt.batchId

/-- **A file that agreed with its record** agrees after the pass, for any record of the row. -/
theorem accepts_kept (h : Completed fmt s report scan u) (hrecord : record ∈ s.ledger.records)
    (haccepts : accepts fmt s (named record) record = true) (hsame : SameSegment record' record) :
    accepts fmt u (named record') record' = true := by
  have hnamed : named record' = named record := by
    unfold named
    rw [hsame.batchId, hsame.row]
  have hread : Retention.trustedSegment fmt u (named record).path =
      Retention.trustedSegment fmt s (named record).path :=
    trusted_vital (vital_vitalOf h.classified) h.spared (Or.inl ⟨record, hrecord, haccepts, rfl⟩)
  rw [accepts_congr hsame, hnamed]
  unfold accepts at haccepts ⊢
  rw [hread]
  exact haccepts

end After

/-! ## The agreement -/

section Agreement

/-- What the audit and a complete pass from `t` to `t'` say of each other. -/
structure Agreement (fmt : SegmentFormat) (t : RestingSpool) (report : ReconciliationReport)
    (t' : RestingSpool) : Prop where
  counted : report.healthy = (healthyIds fmt t.store).length
  once : (healthyIds fmt t.store).Nodup
  /-- The audit of the tree as the pass looks at it. -/
  repaired : ∀ b, b ∈ intactIds fmt t.repaired ↔ b ∈ healthyIds fmt t.store
  /-- The audit of the tree as it was. -/
  before : ∀ record ∈ t.store.ledger.records, verifySegment fmt t record = none ↔
    record.batchId ∈ healthyIds fmt t.store ∧ t.pending.opens = true ∧
      t.days record.day = .private
  kept : ∀ b ∈ healthyIds fmt t.store, b ∈ intactIds fmt t'
  after : ∀ b, b ∈ intactIds fmt t' ↔
    b ∈ healthyIds fmt t.store ∨ b ∈ report.registered.map (·.1)

/-- The checks of the replay and of the retention preview on the file of a record. -/
structure PassesEverywhere (fmt : CountedFormat) (t : RestingSpool) (record : SegmentRecord) :
    Prop where
  replay : ∃ parsed, readTrusted fmt.toSegmentFormat t record.day record.batchId = .ok parsed ∧
    verifyAgainstLedger fmt.toCheckedFormat parsed record = .ok ()
  retention : ∀ now,
    (Retention.classify fmt.toSegmentFormat t.store now record).status ≠ .unreadable ∧
      (Retention.classify fmt.toSegmentFormat t.store now record).status ≠ .disagreeing

/-- What a trusted read returns was read from some bytes. -/
theorem read_of_trusted {fmt : SegmentFormat} {s : SpoolState} {p : Path}
    {parsed : ParsedSegment fmt.Frame} (h : Retention.trustedSegment fmt s p = .ok parsed) :
    ∃ content, fmt.read content = .ok parsed := by
  unfold Retention.trustedSegment at h
  split at h
  · cases h
  · rename_i f _
    split at h
    · cases h
    · split at h
      · cases h
      · split at h
        · cases h
        · cases hread : fmt.read f.content with
          | error e => rw [hread] at h; cases h
          | ok parsed' =>
              rw [hread] at h
              exact ⟨f.content, hread.trans (congrArg _ (Except.ok.inj h))⟩

/-- **A segment the audit finds intact** passes the other checks of its file against its row. -/
theorem verified_everywhere {fmt : CountedFormat} {t : RestingSpool} {record : SegmentRecord}
    (h : verifySegment fmt.toSegmentFormat t record = none) : PassesEverywhere fmt t record := by
  obtain ⟨haccepts, hopens, hday⟩ := verifySegment_none.mp h
  obtain ⟨-, -, hfile⟩ := accepts_true haccepts
  have hopen : t.openDay record.day = .ok () := openDay_ok.mpr ⟨hopens, dir_of_file hfile, hday⟩
  unfold accepts at haccepts
  split at haccepts
  · rename_i parsed hread
    have hread : Retention.trustedSegment fmt.toSegmentFormat t.store
        (segmentPath record.day record.batchId) = .ok parsed := hread
    have hagrees : agrees parsed record.day record.batchId record = true := haccepts
    refine ⟨⟨parsed, ?_, ?_⟩, fun now => ?_⟩
    · unfold readTrusted
      rw [hopen]
      exact hread
    · obtain ⟨content, hcontent⟩ := read_of_trusted hread
      have hframes := fmt.read_count hcontent
      obtain ⟨-, hcount, hdigest, hsize, hsha⟩ := agrees_true hagrees
      unfold verifyAgainstLedger
      rw [if_neg]
      rintro (hne | hne | hne | hne)
      · exact hne hsha
      · exact hne hsize
      · exact hne hdigest
      · exact hne (hframes.trans hcount)
    · have hpath : Retention.recordPath record = segmentPath record.day record.batchId := rfl
      unfold Retention.classify
      rw [hpath, hread]
      dsimp only
      rw [hagrees, if_neg (by decide)]
      repeat' split
      all_goals exact ⟨nofun, nofun⟩
  · cases haccepts

/-- **The audit agrees with the pass**: a complete and safe pass counts exactly the segments the
audit finds intact once the directories are hardened, leaves every one of them intact, and adds the
orphans it registered; before the pass the audit finds those among them whose directory is already
private. What the audit finds intact passes the checks of the replay and of the preview too. -/
theorem verify_agrees (fmt : CountedFormat) (t t' : RestingSpool) (report : ReconciliationReport)
    (hvalid : t.Valid) (h : Reconciles fmt.toSegmentFormat t report t')
    (hcomplete : report.complete = true) (hsafe : report.recoverySafe = true) :
    Agreement fmt.toSegmentFormat t report t' ∧
      ∀ v record, verifySegment fmt.toSegmentFormat v record = none →
        PassesEverywhere fmt v record := by
  refine ⟨?_, fun v record hv => verified_everywhere hv⟩
  obtain ⟨tape, hrun⟩ := h.run
  have hpass := @reconcilePass_spared t.store fmt.toSegmentFormat hvalid.rows hvalid.inodes
  have hdone := (Safe.play (R := fun u u' => u' = u) (fun _ => rfl) (fun _ => trivial)
    (fun _ _ _ _ _ => trivial) hpass hrun).2 (.ok report) rfl
  obtain ⟨scan, hscan⟩ := hdone report rfl hcomplete hsafe
  -- the audit of what the pass left needs only a file that agrees
  have hintact : ∀ b, b ∈ intactIds fmt.toSegmentFormat t' ↔
      ∃ record ∈ t'.store.ledger.records, record.batchId = b ∧
        accepts fmt.toSegmentFormat t'.store (named record) record = true := by
    intro b
    rw [mem_intactIds]
    constructor
    · rintro ⟨record, hrecord, hb, hcode⟩
      exact ⟨record, hrecord, hb, (verifySegment_none.mp hcode).1⟩
    · rintro ⟨record, hrecord, hb, haccepts⟩
      refine ⟨record, hrecord, hb, verifySegment_none.mpr ⟨haccepts, ?_, ?_⟩⟩
      · rw [h.pending, repaired_private h.listable.pending]
        rfl
      · rw [h.days]
        have hbefore := accepts_spared hscan.spared haccepts
        exact repaired_private (h.listable.days _ (dir_of_file (accepts_true hbefore).2.2))
  have hafter : ∀ b, b ∈ intactIds fmt.toSegmentFormat t' ↔
      b ∈ healthyIds fmt.toSegmentFormat t.store ∨ b ∈ report.registered.map (·.1) := by
    intro b
    have hregistered : report.registered.map (·.1) = scan.registrations.map (·.batchId) := by
      rw [hscan.registered, List.map_map]
      rfl
    rw [hintact, mem_healthyIds, hregistered, List.mem_map]
    constructor
    · rintro ⟨record', hrecord', rfl, haccepts⟩
      obtain ⟨record, hrecord, hsame⟩ := hscan.spared.lists.only record' hrecord'
      rcases List.mem_append.mp hrecord with hold | hnew
      · refine Or.inl ⟨record, ?_, ?_⟩
        · rw [hsame.batchId]
          exact recordFor_of_mem hold
        · have hnamed : named record' = named record := by
            unfold named
            rw [hsame.batchId, hsame.row]
          rw [accepts_congr hsame, hnamed] at haccepts
          exact accepts_spared hscan.spared haccepts
      · obtain ⟨o, ho, rfl⟩ := List.mem_map.mp hnew
        exact Or.inr ⟨o, ho, hsame.batchId.symm⟩
    · rintro (⟨record, hrecord, haccepts⟩ | ⟨o, ho, rfl⟩)
      · obtain ⟨hmem, hb⟩ := recordFor_eq_some hrecord
        obtain ⟨record', hrecord', hsame⟩ := hscan.spared.lists.all record
          (List.mem_append_left _ hmem)
        exact ⟨record', hrecord', hsame.batchId.trans hb, accepts_kept hscan hmem haccepts hsame⟩
      · obtain ⟨record', hrecord', hsame⟩ := hscan.spared.lists.all (reconciledRecord o)
          (List.mem_append_right _ (List.mem_map_of_mem ho))
        exact ⟨record', hrecord', hsame.batchId, accepts_registered hscan ho hsame⟩
  refine ⟨hscan.healthy, nodup_healthyIds, fun b => mem_intactIds_repaired h.listable,
    fun record hrecord => ?_, fun b hb => (hafter b).mpr (Or.inl hb), hafter⟩
  rw [verifySegment_none]
  refine and_congr_left fun _ => ?_
  rw [mem_healthyIds, recordFor_of_mem hrecord]
  simp

end Agreement

/-! ## A sample pass -/

/-- The sample format counts its one frame. -/
def countedSample : CountedFormat where
  toCheckedFormat := checkedSample
  read_count := by
    intro b parsed h
    dsimp only [checkedSample, sampleFormat] at h
    split at h
    · cases h
      rfl
    · cases h

/-- The sample segment under a day directory of mode 0500. -/
def restingSample : RestingSpool where
  store := replayed
  pending := .private
  days _ := .stricter true

/-- What the pass reports of it. -/
def restingReport : ReconciliationReport := ⟨[], [], [], 1, true, true⟩

theorem restingSample_valid : restingSample.Valid := by
  constructor
  · intro b e h
    by_cases hb : b = "b1"
    · subst hb
      rfl
    · exfalso
      have hnone : restingSample.store.ledger.exporters.lookup (b, e) = none := by
        refine AList.lookup_eq_none.mpr fun hmem => hb ?_
        exact (Prod.mk.inj (List.mem_singleton.mp hmem)).1
      unfold Ledger.required at h
      rw [hnone] at h
      cases h
  · intro p f hf
    have hmem : (p.tree, p.day) = (.pending, Stamp.day 3) ∧ f.inode = 0 := by
      unfold SpoolState.file SpoolState.dir at hf
      by_cases hdir : (p.tree, p.day) = (.pending, Stamp.day 3)
      · rw [hdir] at hf
        have hf : AList.lookup p.name (@AList.singleton String (fun _ => File) (segmentName "b1")
            ⟨[0], 0, .private⟩) = some f := hf
        have hf := AList.mem_lookup_iff.mp hf
        obtain ⟨-, hf⟩ := Sigma.mk.inj (List.mem_singleton.mp hf)
        exact ⟨hdir, by rw [eq_of_heq hf]⟩
      · have hnone : restingSample.store.dirs.lookup (p.tree, p.day) = none :=
          AList.lookup_eq_none.mpr fun hmem => hdir (List.mem_singleton.mp hmem)
        rw [hnone] at hf
        simp [Disk.Dir.empty] at hf
    rw [hmem.2]
    exact Nat.zero_lt_one

theorem restingSample_reconciles :
    Reconciles countedSample.toSegmentFormat restingSample restingReport restingSample.repaired where
  listable := ⟨nofun, fun _ _ => nofun⟩
  pending := rfl
  days _ := rfl
  run := ⟨[.ok, .ok, .ok, .ok], rfl⟩

/-- The pass counts the segment, and the audit of the tree it started from does not find it. -/
theorem verify_refuses_stricter_day : restingSample.Valid ∧
    Reconciles countedSample.toSegmentFormat restingSample restingReport restingSample.repaired ∧
    restingReport.complete = true ∧ restingReport.recoverySafe = true ∧
    restingReport.healthy = 1 ∧ intactIds countedSample.toSegmentFormat restingSample = [] ∧
    intactIds countedSample.toSegmentFormat restingSample.repaired = ["b1"] :=
  ⟨restingSample_valid, restingSample_reconciles, rfl, rfl, rfl, by decide +kernel, by decide +kernel⟩

/-- The agreement over it. -/
theorem verify_agrees_sample :
    Agreement countedSample.toSegmentFormat restingSample restingReport restingSample.repaired ∧
      ∀ v record, verifySegment countedSample.toSegmentFormat v record = none →
        PassesEverywhere countedSample v record :=
  verify_agrees countedSample restingSample restingSample.repaired restingReport
    restingSample_valid restingSample_reconciles rfl rfl

end Milhouse.Verify
