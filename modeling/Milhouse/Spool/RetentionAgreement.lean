import Milhouse.Spool.Retention

/-!
# Milhouse — the retention preview against the pass

What a turn of `retentionApply` leaves alone, and from it what a whole pass does: every turn has the
outcome it would have had on the tables and files the pass started from, so the outcomes can be read
off the preview.

* **`applyOne_cases`** — a turn skips its segment and changes nothing, or prunes it and leaves every
  other segment alone (`Untouched`);
* **`applyAll_eq`** — the pass is its turns, each on the first state;
* **`passesOver`** — a prune that fails leaves its segment alone, and the pass goes on;
* **`retention_faithful_iff`** — the pass does what the preview says exactly where no segment that
  has wholly expired already has a tombstone.
-/

namespace Milhouse.Retention

open Disk

/-! ## Files -/

section Files

variable {s s' : SpoolState} {p q : Path} {f : File}

theorem stat_of_current (h : ∀ tree day, (s'.dir tree day).current = (s.dir tree day).current) :
    s'.stat p = s.stat p := by
  unfold SpoolState.stat SpoolState.file
  rw [h]

/-- A file that is private has no second name. -/
theorem stat_private (h : s.stat p = some f) (hprivate : f.shape = .private) :
    s.file p = some f ∧
      ∀ e ∈ (s.dir p.tree p.day).current.entries, e.1 ≠ p.name → e.2.inode ≠ f.inode := by
  obtain ⟨g, hg, hstat⟩ := Option.map_eq_some_iff.mp h
  split at hstat
  · split at hstat
    · rw [← hstat] at hprivate
      cases hprivate
    · rw [← hstat] at hprivate
      cases hprivate
  · rename_i hany
    subst hstat
    refine ⟨hg, fun e he hname hinode => hany (List.any_eq_true.mpr ⟨e, he, ?_⟩)⟩
    simp [hname, hinode]

/-- **Removing a private file** changes what no other name shows. -/
theorem stat_remove (h : s.stat p = some f) (hprivate : f.shape = .private) (hq : q ≠ p) :
    (s.remove p).stat q = s.stat q := by
  have hfile : (s.remove p).file q = s.file q := s.file_remove_ne hq
  obtain ⟨hp, halone⟩ := stat_private h hprivate
  unfold SpoolState.stat
  rw [hfile]
  by_cases hdir : (q.tree, q.day) = (p.tree, p.day)
  · obtain ⟨htree, hday⟩ := Prod.mk.inj hdir
    have hname : q.name ≠ p.name := by
      intro hname
      apply hq
      cases p
      cases q
      simp only at htree hday hname
      rw [htree, hday, hname]
    have hcurrent : ((s.remove p).dir q.tree q.day).current =
        (s.dir q.tree q.day).current.erase p.name := by
      rw [SpoolState.dir_remove, if_pos hdir, htree, hday]
      rfl
    rw [hcurrent]
    cases hfq : s.file q with
    | none => rfl
    | some g =>
        have hany : ((s.dir q.tree q.day).current.erase p.name).entries.any
              (fun e => e.1 ≠ q.name && e.2.inode = g.inode) =
            (s.dir q.tree q.day).current.entries.any
              fun e => e.1 ≠ q.name && e.2.inode = g.inode := by
          rw [Bool.eq_iff_iff, List.any_eq_true, List.any_eq_true]
          constructor
          · rintro ⟨⟨name, e⟩, he, hmatch⟩
            have hlookup := AList.mem_lookup_iff.mpr he
            have hne : name ≠ p.name := by
              rintro rfl
              rw [AList.lookup_erase] at hlookup
              cases hlookup
            rw [AList.lookup_erase_ne hne] at hlookup
            exact ⟨⟨name, e⟩, AList.mem_lookup_iff.mp hlookup, hmatch⟩
          · rintro ⟨⟨name, e⟩, he, hmatch⟩
            have hlookup := AList.mem_lookup_iff.mpr he
            have hne : name ≠ p.name := by
              rintro rfl
              -- then `q` would be a second name of the private file
              have hsame : s.file p = some e := by
                rw [htree, hday] at hlookup
                exact hlookup
              rw [hp] at hsame
              obtain rfl := Option.some.inj hsame
              have hqmem : (⟨q.name, g⟩ : (_ : String) × File) ∈
                  (s.dir p.tree p.day).current.entries := by
                rw [← htree, ← hday]
                exact AList.mem_lookup_iff.mp hfq
              have hinode : f.inode = g.inode := by
                simp only [ne_eq, Bool.and_eq_true, decide_eq_true_eq] at hmatch
                exact hmatch.2
              exact halone _ hqmem hname hinode.symm
            refine ⟨⟨name, e⟩, AList.mem_lookup_iff.mp ?_, hmatch⟩
            rw [AList.lookup_erase_ne hne]
            exact hlookup
        rw [Option.map_some, Option.map_some, hany]
  · have hcurrent : ((s.remove p).dir q.tree q.day) = s.dir q.tree q.day := by
      rw [SpoolState.dir_remove, if_neg hdir]
    rw [hcurrent]

theorem current_syncDir {tree : Tree} {day : Day} (t : Tree) (d : Day) :
    ((s.syncDir tree day).dir t d).current = (s.dir t d).current := by
  rw [SpoolState.dir_syncDir]
  split
  · rename_i h
    obtain ⟨rfl, rfl⟩ := Prod.mk.inj h
    rfl
  · rfl

end Files

/-! ## What a turn leaves alone -/

/-- Nothing of a segment changed: its row, its delivery rows, the cursors that reference it, its
tombstone and its file. -/
structure Untouched (record : SegmentRecord) (s s' : RetentionState) : Prop where
  row : s'.spool.ledger.segments.lookup record.batchId =
    s.spool.ledger.segments.lookup record.batchId
  exporters : ∀ e, s'.spool.ledger.exporters.lookup (record.batchId, e) =
    s.spool.ledger.exporters.lookup (record.batchId, e)
  cursors : ∀ source row, row.batchId = some record.batchId →
    (s'.spool.ledger.cursors.lookup source = some row ↔
      s.spool.ledger.cursors.lookup source = some row)
  tombstone : s'.spool.ledger.retirements.lookup record.batchId =
    s.spool.ledger.retirements.lookup record.batchId
  file : s'.spool.file (recordPath record) = s.spool.file (recordPath record)
  stat : s'.spool.stat (recordPath record) = s.spool.stat (recordPath record)

section Turn

variable {fmt : SegmentFormat} {record other : SegmentRecord} {now : Instant} {delivered : Bool}
  {faults : SegmentFaults} {s s' s'' : RetentionState}

theorem Untouched.refl (record : SegmentRecord) (s : RetentionState) : Untouched record s s :=
  ⟨rfl, fun _ => rfl, fun _ _ _ => Iff.rfl, rfl, rfl, rfl⟩

/-- What two steps leave untouched, both together do. -/
theorem Untouched.trans (h : Untouched record s s') (h' : Untouched record s' s'') :
    Untouched record s s'' where
  row := h'.row.trans h.row
  exporters e := (h'.exporters e).trans (h.exporters e)
  cursors source row hrow := (h'.cursors source row hrow).trans (h.cursors source row hrow)
  tombstone := h'.tombstone.trans h.tombstone
  file := h'.file.trans h.file
  stat := h'.stat.trans h.stat

/-- Records of different batches have different paths. -/
theorem recordPath_ne (h : other.batchId ≠ record.batchId) :
    recordPath other ≠ recordPath record := by
  intro heq
  exact h (segmentName_injective (congrArg Path.name heq))

/-- The ledger part of a prune leaves other segments alone. -/
theorem untouched_setLedger {t : Ledger} {audit : List AuditRow}
    (h : s.spool.ledger.pruneSegment record (formatTimestamp now) = some t)
    (hne : other.batchId ≠ record.batchId) :
    Untouched other s ⟨s.spool.setLedger t, audit⟩ := by
  obtain ⟨-, hsegments, hretirements⟩ := Ledger.pruneSegment_eq h
  refine ⟨?_, fun e => Ledger.pruneSegment_exporter h (Ne.symm hne), fun source row hrow => ?_, ?_,
    rfl, rfl⟩
  · show t.segments.lookup _ = _
    rw [hsegments, AList.lookup_erase_ne hne]
  · show t.cursors.lookup source = some row ↔ _
    rw [Ledger.pruneSegment_cursors h, Ledger.lookup_detachCursors, Option.map_eq_some_iff]
    constructor
    · rintro ⟨old, hold, heq⟩
      split at heq
      · rw [← heq] at hrow
        cases hrow
      · rw [← heq]
        exact hold
    · intro hold
      refine ⟨row, hold, if_neg ?_⟩
      rw [hrow]
      exact fun heq => hne (Option.some.inj heq)
  · show t.retirements.lookup _ = _
    rw [hretirements, AList.lookup_insert_ne hne]

/-- The removal of a file changes no other file and no table. -/
theorem removeFile_spec {fault : UnlinkFault} {p q : Path} {s : SpoolState} (hq : q ≠ p) :
    (removeFile fault s p).2.ledger = s.ledger ∧ (removeFile fault s p).2.file q = s.file q ∧
      (removeFile fault s p).2.stat q = s.stat q := by
  unfold removeFile
  split
  · exact ⟨rfl, rfl, rfl⟩
  · rename_i f hstat
    split
    · exact ⟨rfl, rfl, rfl⟩
    · rename_i hshape
      have hprivate : f.shape = .private := by simpa using hshape
      have hremove := stat_remove hstat hprivate hq
      have hfile : (s.remove p).file q = s.file q := s.file_remove_ne hq
      cases fault with
      | none =>
          refine ⟨rfl, ?_, ?_⟩
          · show ((s.remove p).syncDir p.tree p.day).file q = _
            rw [SpoolState.file_syncDir, hfile]
          · show ((s.remove p).syncDir p.tree p.day).stat q = _
            rw [stat_of_current current_syncDir, hremove]
      | before => exact ⟨rfl, rfl, rfl⟩
      | uncertain gone =>
          cases gone with
          | false => exact ⟨rfl, rfl, rfl⟩
          | true => exact ⟨rfl, hfile, hremove⟩

/-- Clearing a tombstone leaves other segments alone. -/
theorem untouched_clearRetirement {fault : TxnFault} (hne : other.batchId ≠ record.batchId) :
    Untouched other s ⟨clearRetirement fault s.spool record.batchId, s.audit⟩ := by
  unfold clearRetirement
  split
  · refine ⟨rfl, fun _ => rfl, fun _ _ _ => Iff.rfl, ?_, rfl, rfl⟩
    exact AList.lookup_erase_ne hne
  · exact .refl _ _

/-- **A prune** that failed changed nothing, and one that committed leaves other segments alone. -/
theorem pruneSegment_cases (faults : SegmentFaults) (record : SegmentRecord) (now : Instant)
    (s : RetentionState) :
    (Prunes faults.prune record s.spool.ledger ∧ ∃ s',
      pruneSegment faults record now (isDelivered record) s = (some ⟨record.batchId,
        record.recordCount, record.byteSize, isDelivered record,
        (removeFile faults.unlink s.spool (recordPath record)).1⟩, s') ∧
      s'.audit = s.audit ++ [auditRow record now] ∧
      ∀ other : SegmentRecord, other.batchId ≠ record.batchId → Untouched other s s') ∨
    (¬ Prunes faults.prune record s.spool.ledger ∧
      pruneSegment faults record now (isDelivered record) s = (none, s)) := by
  rcases pruneTransaction_cases faults.prune record now (isDelivered record)
    ⟨s.spool.ledger, s.audit⟩ with ⟨hprunes, ledger, hledger, htxn⟩ | ⟨hprunes, e, htxn⟩
  · refine Or.inl ⟨hprunes, ?_⟩
    -- The outcome of the unlink depends on the file and not on the tables.
    have houtcome : (removeFile faults.unlink (s.spool.setLedger ledger) (recordPath record)).1 =
        (removeFile faults.unlink s.spool (recordPath record)).1 := by
      unfold removeFile
      rw [show (s.spool.setLedger ledger).stat (recordPath record) =
        s.spool.stat (recordPath record) from rfl]
      split
      · rfl
      · split
        · rfl
        · split <;> rfl
    unfold pruneSegment
    rw [htxn]
    simp only
    rw [houtcome]
    refine ⟨_, rfl, rfl, fun other hne => ?_⟩
    -- The transaction, the unlink and the cleared tombstone each leave another segment untouched.
    have hledgerPart := @untouched_setLedger _ _ _ _ _ (s.audit ++ [auditRow record now]) hledger hne
    have hfilePart : Untouched other ⟨s.spool.setLedger ledger, s.audit ++ [auditRow record now]⟩
        ⟨(removeFile faults.unlink (s.spool.setLedger ledger) (recordPath record)).2,
          s.audit ++ [auditRow record now]⟩ := by
      obtain ⟨htables, hfile, hstat⟩ := @removeFile_spec faults.unlink _ _
        (s := s.spool.setLedger ledger) (recordPath_ne hne)
      refine ⟨?_, fun e => ?_, fun source row _ => ?_, ?_, hfile, hstat⟩
      all_goals simp only [htables]
    refine hledgerPart.trans (hfilePart.trans ?_)
    split
    · exact untouched_clearRetirement (s := ⟨_, _⟩) hne
    · exact .refl _ _
  · refine Or.inr ⟨hprunes, ?_⟩
    unfold pruneSegment
    rw [htxn]
    rfl

end Turn

/-! ## The two classifications -/

/-- The file of the record can be read, agrees with the row, and every one of its records, of which
there is one, has expired. -/
def WhollyExpired (fmt : SegmentFormat) (s : SpoolState) (now : Instant) (record : SegmentRecord) :
    Prop :=
  ∃ parsed, trustedSegment fmt s (recordPath record) = .ok parsed ∧
    agrees parsed record.day record.batchId record = true ∧ parsed.frames ≠ [] ∧
    ∀ frame ∈ parsed.frames, (fmt.expiresAt frame * 1000 : Nat) ≤ now.micros

/-- The latest of the expiries has passed exactly if every one of them has. -/
theorem passed_latest {expiries : List Stamp} (hne : expiries ≠ []) {now : Instant} :
    passed (latest expiries) now = true ↔ ∀ e ∈ expiries, (e * 1000 : Nat) ≤ now.micros := by
  cases hmax : expiries.max? with
  | none => exact absurd (List.max?_eq_none_iff.mp hmax) hne
  | some top =>
      obtain ⟨hmem, hle⟩ := List.max?_eq_some_iff.mp hmax
      unfold passed latest
      rw [hmax, Option.getD_some, decide_eq_true_eq]
      constructor
      · intro htop e he
        exact (Nat.mul_le_mul_right 1000 (hle e he)).trans htop
      · exact fun hall => hall top hmem

theorem ahead_eq_not_passed (e : Stamp) (now : Instant) : ahead e now = !passed e now := by
  unfold ahead passed
  rw [← decide_not]
  simp only [Nat.not_le]

section Classification

variable {fmt : SegmentFormat} {record other : SegmentRecord} {now : Instant}
  {faults : SegmentFaults} {s s' : RetentionState}

/-- **The preview lists as fully expired** exactly the segments that have wholly expired. -/
theorem classify_fullyExpired {s : SpoolState} :
    (WhollyExpired fmt s now record ∧
      classify fmt s now record = report record .fullyExpired none) ∨
    (¬ WhollyExpired fmt s now record ∧
      (classify fmt s now record).status ≠ .fullyExpired) := by
  unfold WhollyExpired classify
  cases trustedSegment fmt s (recordPath record) with
  | error code => exact Or.inr ⟨(fun ⟨_, h, _⟩ => nomatch h), fun h => nomatch h⟩
  | ok parsed =>
      simp only [Except.ok.injEq, exists_eq_left']
      cases hagrees : agrees parsed record.day record.batchId record with
      | false => exact Or.inr ⟨(fun h => nomatch h.1), fun h => nomatch h⟩
      | true =>
          simp only [Bool.not_true, Bool.false_eq_true, if_false, List.map_eq_nil_iff, true_and]
          by_cases hempty : parsed.frames = []
          · rw [if_pos hempty]
            exact Or.inr ⟨fun h => h.1 hempty, fun h => nomatch h⟩
          · rw [if_neg hempty]
            have hlatest : passed (latest (parsed.frames.map fmt.expiresAt)) now = true ↔
                ∀ frame ∈ parsed.frames, (fmt.expiresAt frame * 1000 : Nat) ≤ now.micros := by
              rw [passed_latest (by simpa using hempty), List.forall_mem_map]
            by_cases hpassed : passed (latest (parsed.frames.map fmt.expiresAt)) now
            · rw [if_pos hpassed]
              exact Or.inl ⟨⟨hempty, hlatest.mp hpassed⟩, rfl⟩
            · rw [if_neg hpassed]
              refine Or.inr ⟨fun h => hpassed (hlatest.mpr h.2), ?_⟩
              split <;> exact fun h => nomatch h

/-- **A turn** whose read does not fail skips with the preview's classification, or tries to prune
a segment that has wholly expired. -/
theorem applyOne_eq (hread : faults.read = none) :
    (WhollyExpired fmt s.spool now record ∧ applyOne fmt faults now record s =
      match pruneSegment faults record now (isDelivered record) s with
      | (none, s') => (.error (report record .fullyExpired (some "MH_SPOOL_RETENTION")), s')
      | (some pruned, s') => (.ok pruned, s')) ∨
    (¬ WhollyExpired fmt s.spool now record ∧
      applyOne fmt faults now record s = (.error (classify fmt s.spool now record), s)) := by
  unfold WhollyExpired applyOne classify
  rw [hread]
  cases trustedSegment fmt s.spool (recordPath record) with
  | error code =>
      refine Or.inr ⟨fun h => ?_, rfl⟩
      obtain ⟨_, hparsed, _⟩ := h
      cases hparsed
  | ok parsed =>
      simp only [Except.ok.injEq, exists_eq_left']
      cases hagrees : agrees parsed record.day record.batchId record with
      | false => exact Or.inr ⟨fun h => Bool.false_ne_true h.1, rfl⟩
      | true =>
          simp only [Bool.not_true, Bool.false_eq_true, if_false, List.map_eq_nil_iff, true_and,
            ahead_eq_not_passed, Bool.not_eq_true']
          by_cases hempty : parsed.frames = []
          · rw [if_pos (Or.inl hempty), if_pos hempty, if_pos (Or.inl hempty)]
            exact Or.inr ⟨fun h => h.1 hempty, rfl⟩
          · have hlatest : passed (latest (parsed.frames.map fmt.expiresAt)) now = true ↔
                ∀ frame ∈ parsed.frames, (fmt.expiresAt frame * 1000 : Nat) ≤ now.micros := by
              rw [passed_latest (by simpa using hempty), List.forall_mem_map]
            rw [if_neg hempty]
            cases hpassed : passed (latest (parsed.frames.map fmt.expiresAt)) now with
            | true =>
                rw [if_neg (by simp [hempty])]
                exact Or.inl ⟨⟨hempty, hlatest.mp hpassed⟩, rfl⟩
            | false =>
                rw [if_pos (Or.inr rfl)]
                refine Or.inr ⟨fun h => ?_, ?_⟩
                · rw [hlatest.mpr h.2] at hpassed
                  cases hpassed
                · rw [if_neg Bool.false_ne_true]
                  cases passed (earliest (parsed.frames.map fmt.expiresAt)) now with
                  | true => rw [if_neg (by simp [hempty]), if_pos rfl]
                  | false => rw [if_pos (Or.inr rfl), if_neg Bool.false_ne_true]

/-- A header bounds its record count. -/
theorem recordCount_le (h : SegmentHeaderV1) : h.recordCount ≤ maxCanonicalInt := by
  have hvalid := h.valid
  unfold HeaderFields.check at hvalid
  by_contra hlt
  simp only [hlt, decide_false, Bool.not_false, if_true, bind, Except.bind, throw, throwThe,
    MonadExceptOf.throw] at hvalid
  repeat' split at hvalid
  all_goals simp at hvalid

/-- The counts of a row that agrees with its file can be audited. -/
theorem WhollyExpired.auditable {s : SpoolState} (h : WhollyExpired fmt s now record) :
    Auditable record := by
  obtain ⟨parsed, hread, hagrees, -, -⟩ := h
  have hsize : parsed.byteSize ≤ maxSegmentFileBytes := by
    unfold trustedSegment at hread
    split at hread
    · cases hread
    · split at hread
      · cases hread
      · split at hread
        · cases hread
        · split at hread
          · cases hread
          · rename_i hsize
            split at hread
            · cases hread
            · rename_i parsed' hparsed
              obtain rfl := Except.ok.inj hread
              rw [(fmt.read_size hparsed).1]
              omega
  simp only [agrees, Bool.and_eq_true, decide_eq_true_eq] at hagrees
  obtain ⟨⟨⟨⟨⟨⟨⟨⟨⟨⟨⟨⟨⟨⟨⟨hheader, hbatch⟩, -⟩, -⟩, -⟩, -⟩, -⟩, -⟩, -⟩, -⟩, hcount⟩, -⟩, hbytes⟩, -⟩, -⟩, -⟩ :=
    hagrees
  refine ⟨?_, ?_, ?_⟩
  · -- the batch id of a header is bounded by 128 characters, a resource by 256
    have hid := parsed.header.matchesBatchId
    rw [hheader] at hid
    unfold Milhouse.matchesBatchId matchesId at hid
    unfold matchesId
    split at hid
    · cases hid
    · simp only [Bool.and_eq_true, decide_eq_true_eq] at hid ⊢
      exact ⟨⟨hid.1.1, hid.1.2.trans (by decide)⟩, hid.2⟩
  · rw [← hcount]
    exact recordCount_le parsed.header
  · rw [← hbytes]
    exact hsize.trans (by decide)

/-- The removal of a file that could be read, where nothing fails. -/
theorem WhollyExpired.removed {s : SpoolState} (h : WhollyExpired fmt s now record) :
    (removeFile .none s (recordPath record)).1 = .removed := by
  obtain ⟨parsed, hread, -⟩ := h
  unfold trustedSegment at hread
  unfold removeFile
  split at hread
  · cases hread
  · split at hread
    · cases hread
    · split at hread
      · cases hread
      · rename_i hshape
        rw [if_neg hshape]

/-- What a turn decides about its segment. -/
theorem applyOne_cases (fmt : SegmentFormat) (faults : SegmentFaults) (now : Instant)
    (record : SegmentRecord) (s : RetentionState) :
    ((faults.read = none ∧ WhollyExpired fmt s.spool now record ∧
        Prunes faults.prune record s.spool.ledger) ∧ ∃ s',
      applyOne fmt faults now record s = (.ok ⟨record.batchId, record.recordCount,
        record.byteSize, isDelivered record,
        (removeFile faults.unlink s.spool (recordPath record)).1⟩, s') ∧
      s'.audit = s.audit ++ [auditRow record now] ∧
      ∀ other : SegmentRecord, other.batchId ≠ record.batchId → Untouched other s s') ∨
    (¬ (faults.read = none ∧ WhollyExpired fmt s.spool now record ∧
        Prunes faults.prune record s.spool.ledger) ∧
      applyOne fmt faults now record s = (.error
        (match faults.read with
        | some code => report record .unreadable (some code)
        | none =>
          if (classify fmt s.spool now record).status = .fullyExpired then
            report record .fullyExpired (some "MH_SPOOL_RETENTION")
          else classify fmt s.spool now record), s)) := by
  cases hread : faults.read with
  | some code =>
      refine Or.inr ⟨(fun h => nomatch h.1), ?_⟩
      unfold applyOne
      rw [hread]
  | none =>
      rcases @applyOne_eq fmt record now _ s hread with
        ⟨hexpired, happly⟩ | ⟨hexpired, happly⟩
      · rcases pruneSegment_cases faults record now s with
          ⟨hprunes, s', hprune, haudit, hothers⟩ | ⟨hprunes, hprune⟩
        · rw [hprune] at happly
          exact Or.inl ⟨⟨rfl, hexpired, hprunes⟩, s', happly, haudit, hothers⟩
        · rw [hprune] at happly
          refine Or.inr ⟨fun h => hprunes h.2.2, ?_⟩
          rcases @classify_fullyExpired fmt record now s.spool with ⟨-, hclass⟩ | ⟨hnot, -⟩
          · rw [happly, hclass]
            rfl
          · exact absurd hexpired hnot
      · refine Or.inr ⟨fun h => hexpired h.2.1, ?_⟩
        rcases @classify_fullyExpired fmt record now s.spool with ⟨h, -⟩ | ⟨-, hstatus⟩
        · exact absurd h hexpired
        · rw [happly]
          simp only [if_neg hstatus]

/-- A turn finds what it decides by in its own row, tombstone and file. -/
theorem applyOne_congr (h : Untouched record s s') :
    (applyOne fmt faults now record s').1 = (applyOne fmt faults now record s).1 := by
  have hread : trustedSegment fmt s'.spool (recordPath record) =
      trustedSegment fmt s.spool (recordPath record) := by
    unfold trustedSegment
    rw [h.stat]
  have hclass : classify fmt s'.spool now record = classify fmt s.spool now record := by
    unfold classify
    rw [hread]
  have hexpired : WhollyExpired fmt s'.spool now record ↔ WhollyExpired fmt s.spool now record := by
    unfold WhollyExpired
    rw [hread]
  have hprunes : Prunes faults.prune record s'.spool.ledger ↔
      Prunes faults.prune record s.spool.ledger := by
    unfold Prunes
    rw [h.tombstone]
  have hremove : (removeFile faults.unlink s'.spool (recordPath record)).1 =
      (removeFile faults.unlink s.spool (recordPath record)).1 := by
    unfold removeFile
    rw [h.stat]
    split
    · rfl
    · split
      · rfl
      · split <;> rfl
  rcases applyOne_cases fmt faults now record s with ⟨hdo, t, ht, -⟩ | ⟨hdo, ht⟩ <;>
    rcases applyOne_cases fmt faults now record s' with ⟨hdo', t', ht', -⟩ | ⟨hdo', ht'⟩
  · rw [ht, ht', hremove]
  · exact absurd ⟨hdo.1, hexpired.mpr hdo.2.1, hprunes.mpr hdo.2.2⟩ hdo'
  · exact absurd ⟨hdo'.1, hexpired.mp hdo'.2.1, hprunes.mp hdo'.2.2⟩ hdo
  · rw [ht, ht', hclass]

end Classification

/-! ## The pass -/

/-- The classification of a skipped segment. -/
def skippedOf : Except SegmentRetention PrunedSegment → Option SegmentRetention
  | .ok _ => none
  | .error skipped => some skipped

/-- The result with these outcomes. -/
def RetentionResult.of (outcomes : List (Except SegmentRetention PrunedSegment)) :
    RetentionResult :=
  ⟨outcomes.filterMap Except.toOption, outcomes.filterMap skippedOf⟩

/-- A result gathers the outcomes segment by segment, each either pruned or skipped. -/
theorem RetentionResult.of_cons {outcome : Except SegmentRetention PrunedSegment}
    {outcomes : List (Except SegmentRetention PrunedSegment)} :
    (RetentionResult.of (outcome :: outcomes)).pruned =
        outcome.toOption.toList ++ (RetentionResult.of outcomes).pruned ∧
      (RetentionResult.of (outcome :: outcomes)).skipped =
        (skippedOf outcome).toList ++ (RetentionResult.of outcomes).skipped := by
  cases outcome <;> exact ⟨rfl, rfl⟩

theorem RetentionResult.add_eq (r : RetentionResult)
    (outcome : Except SegmentRetention PrunedSegment) :
    r.add outcome = ⟨r.pruned ++ outcome.toOption.toList, r.skipped ++ (skippedOf outcome).toList⟩ := by
  cases outcome <;> simp [RetentionResult.add, Except.toOption, skippedOf]

/-- The audit row of a pruned segment. -/
def PrunedSegment.row (now : Instant) (p : PrunedSegment) : AuditRow :=
  pruneRow now p.recordCount p.byteSize (!p.delivered)

section Pass

variable {fmt : SegmentFormat} {now : Instant} {faults : String → SegmentFaults}
  {records : List SegmentRecord} {s : RetentionState}

/-- **The pass** is its turns, each as on the first state: one audit row for each pruned segment, and
a segment whose turn skips it is untouched. -/
theorem applyAll_eq (hdistinct : (records.map (·.batchId)).Nodup) (result : RetentionResult) :
    (applyAll fmt faults now records result s).1 =
      ⟨result.pruned ++ (RetentionResult.of (records.map fun r =>
          (applyOne fmt (faults r.batchId) now r s).1)).pruned,
        result.skipped ++ (RetentionResult.of (records.map fun r =>
          (applyOne fmt (faults r.batchId) now r s).1)).skipped⟩ ∧
    (applyAll fmt faults now records result s).2.audit = s.audit ++
      (RetentionResult.of (records.map fun r =>
        (applyOne fmt (faults r.batchId) now r s).1)).pruned.map (PrunedSegment.row now) ∧
    ∀ other : SegmentRecord,
      (∀ r ∈ records, r.batchId = other.batchId →
        (applyOne fmt (faults r.batchId) now r s).1.toOption = none) →
      Untouched other s (applyAll fmt faults now records result s).2 := by
  induction records generalizing result s with
  | nil =>
      refine ⟨?_, ?_, fun other _ => .refl _ _⟩
      · simp [applyAll, RetentionResult.of]
      · simp [applyAll, RetentionResult.of]
  | cons record rest ih =>
      rw [List.map_cons, List.nodup_cons] at hdistinct
      obtain ⟨hfresh, hrest⟩ := hdistinct
      have hne : ∀ r ∈ rest, r.batchId ≠ record.batchId := by
        intro r hr heq
        exact hfresh (heq ▸ List.mem_map_of_mem hr)
      -- a turn's outcome is the one it would have on the first state
      have hsame : ∀ s', (∀ other : SegmentRecord, other.batchId ≠ record.batchId →
          Untouched other s s') → rest.map (fun r => (applyOne fmt (faults r.batchId) now r s').1) =
            rest.map fun r => (applyOne fmt (faults r.batchId) now r s).1 := by
        intro s' hothers
        exact List.map_congr_left fun r hr => applyOne_congr (hothers r (hne r hr))
      unfold applyAll
      rcases applyOne_cases fmt (faults record.batchId) now record s with
        ⟨-, s', happly, haudit, hothers⟩ | ⟨-, happly⟩
      · rw [List.map_cons, happly]
        obtain ⟨hresult, haudits, hrun⟩ := ih (s := s') hrest (result.add (.ok ⟨record.batchId,
          record.recordCount, record.byteSize, isDelivered record,
          (removeFile (faults record.batchId).unlink s.spool (recordPath record)).1⟩))
        rw [hsame s' hothers] at hresult haudits
        refine ⟨?_, ?_, fun other hskip => ?_⟩
        · simp only
          rw [hresult, RetentionResult.add_eq, RetentionResult.of_cons.1, RetentionResult.of_cons.2]
          simp only [List.append_assoc]
        · simp only
          rw [haudits, haudit, RetentionResult.of_cons.1, List.map_append, List.append_assoc]
          rfl
        · have hother : other.batchId ≠ record.batchId := by
            intro heq
            have := hskip record List.mem_cons_self heq.symm
            rw [happly] at this
            cases this
          refine (hothers other hother).trans (hrun other fun r hr heq => ?_)
          rw [applyOne_congr (hothers r (hne r hr))]
          exact hskip r (List.mem_cons_of_mem _ hr) heq
      · rw [List.map_cons, happly]
        obtain ⟨hresult, haudits, hrun⟩ := ih (s := s) hrest (result.add
          (applyOne fmt (faults record.batchId) now record s).1)
        rw [happly] at hresult haudits hrun
        refine ⟨?_, ?_, fun other hskip => ?_⟩
        · simp only
          rw [hresult, RetentionResult.add_eq, RetentionResult.of_cons.1, RetentionResult.of_cons.2]
          simp only [List.append_assoc]
        · simp only
          rw [haudits, RetentionResult.of_cons.1]
          rfl
        · exact hrun other fun r hr heq => hskip r (List.mem_cons_of_mem _ hr) heq

/-- The rows of the ledger have distinct batch ids. -/
theorem records_nodup (t : Ledger) : (t.records.map (·.batchId)).Nodup := by
  have hperm : (t.records.map (·.batchId)).Perm t.segments.keys := by
    unfold Ledger.records
    refine ((List.perm_insertionSort _ _).map _).trans ?_
    rw [List.map_map]
    exact List.Perm.refl _
  exact hperm.nodup_iff.mpr t.segments.keys_nodup

end Pass

/-! ## The preview against the pass -/

/-- What the pass reports is what the preview said it would. -/
structure Agree (preview : RetentionPreview) (result : RetentionResult) : Prop where
  pruned : result.pruned = preview.fullyExpired.map fun entry =>
    ⟨entry.batchId, entry.recordCount, entry.byteSize, entry.delivered, .removed⟩
  records : result.prunedRecords = preview.reclaimableRecords
  bytes : result.prunedBytes = preview.reclaimableBytes
  undelivered : result.undeliveredPruned.map (·.batchId) =
    preview.undeliveredExpired.map (·.batchId)
  skipped : result.skipped = preview.segments.filter fun entry => entry.status ≠ .fullyExpired

/-- A statement of the prune transaction of the record fails: SQLite does, or a tombstone of the
same batch id violates the primary key. -/
def PruneFails (faults : String → SegmentFaults) (record : SegmentRecord) (s : RetentionState) :
    Prop :=
  (faults record.batchId).prune ≠ .none ∨
    (s.spool.ledger.retirements.lookup record.batchId).isSome

/-- What a pass does to a segment whose prune transaction fails, and to the others. -/
structure PassesOver (fmt : SegmentFormat) (faults : String → SegmentFaults) (now : Instant)
    (s : RetentionState) (record : SegmentRecord) : Prop where
  untouched : Untouched record s (retentionApply fmt faults now s).2
  notPruned : record.batchId ∉ (retentionApply fmt faults now s).1.pruned.map (·.batchId)
  reported : (faults record.batchId).read = none → WhollyExpired fmt s.spool now record →
    report record .fullyExpired (some "MH_SPOOL_RETENTION") ∈
      (retentionApply fmt faults now s).1.skipped
  /-- The pass adds an audit row for each segment it pruned, and no other. -/
  audit : (retentionApply fmt faults now s).2.audit =
    s.audit ++ (retentionApply fmt faults now s).1.pruned.map (PrunedSegment.row now)
  /-- Whatever else had happened to this segment, the others would have fared the same. -/
  goesOn : ∀ instead : SegmentFaults,
    (retentionApply fmt faults now s).1.pruned.filter (fun p => p.batchId ≠ record.batchId) =
      (retentionApply fmt (Function.update faults record.batchId instead) now s).1.pruned.filter
        (fun p => p.batchId ≠ record.batchId) ∧
    (retentionApply fmt faults now s).1.skipped.filter (fun e => e.batchId ≠ record.batchId) =
      (retentionApply fmt (Function.update faults record.batchId instead) now s).1.skipped.filter
        (fun e => e.batchId ≠ record.batchId)

/-- The preview agrees with a pass in which nothing fails, and every pass passes over the segments
whose prune transaction fails. -/
def Faithful (fmt : SegmentFormat) (now : Instant) (s : RetentionState) : Prop :=
  Agree (retentionPreview fmt now s) (retentionApply fmt (fun _ => .none) now s).1 ∧
    ∀ faults : String → SegmentFaults, ∀ record ∈ s.spool.ledger.records,
      PruneFails faults record s → PassesOver fmt faults now s record

section Agreement

variable {fmt : SegmentFormat} {now : Instant} {faults : String → SegmentFaults}
  {record : SegmentRecord} {s : RetentionState}

/-- The pass acts on every segment as if it were the first, since one leaves the others untouched.
-/
theorem retentionApply_eq :
    (retentionApply fmt faults now s).1 = RetentionResult.of (s.spool.ledger.records.map fun r =>
      (applyOne fmt (faults r.batchId) now r s).1) := by
  unfold retentionApply
  rw [(applyAll_eq (records_nodup _) _).1]
  rfl

/-- The outcome of a turn is about its own segment. -/
theorem applyOne_batchId {f : SegmentFaults} :
    (∀ p, (applyOne fmt f now record s).1.toOption = some p → p.batchId = record.batchId) ∧
      ∀ e, skippedOf (applyOne fmt f now record s).1 = some e → e.batchId = record.batchId := by
  rcases applyOne_cases fmt f now record s with ⟨-, s', happly, -⟩ | ⟨-, happly⟩
  · rw [happly]
    refine ⟨fun p hp => ?_, fun e he => nomatch he⟩
    obtain rfl := Option.some.inj hp
    rfl
  · rw [happly]
    refine ⟨(fun p hp => nomatch hp), fun e he => ?_⟩
    obtain rfl := Option.some.inj he
    split
    · rfl
    · split
      · rfl
      · unfold classify
        split
        · rfl
        · split
          · rfl
          · simp only
            split
            · rfl
            · split
              · rfl
              · split <;> rfl

/-- Two families of outcomes that differ for one segment agree on the others. -/
theorem filter_filterMap_congr {α : Type} {batchId : α → String} {b : String}
    {f g : SegmentRecord → Option α} {records : List SegmentRecord}
    (hf : ∀ r ∈ records, ∀ x, f r = some x → batchId x = r.batchId)
    (hg : ∀ r ∈ records, ∀ x, g r = some x → batchId x = r.batchId)
    (heq : ∀ r ∈ records, r.batchId ≠ b → f r = g r) :
    (records.filterMap f).filter (fun x => batchId x ≠ b) =
      (records.filterMap g).filter (fun x => batchId x ≠ b) := by
  rw [List.filter_filterMap, List.filter_filterMap]
  refine List.filterMap_congr fun r hr => ?_
  by_cases hb : r.batchId = b
  · have hnone : ∀ h : SegmentRecord → Option α, (∀ x, h r = some x → batchId x = r.batchId) →
        (h r).filter (fun x => batchId x ≠ b) = none := by
      intro h hh
      rw [Option.filter_eq_none_iff]
      intro x hx
      simp [hh x hx, hb]
    rw [hnone f (hf r hr), hnone g (hg r hr)]
  · rw [heq r hr hb]

/-- **A failed prune** leaves its segment alone and the pass goes on. -/
theorem passesOver (hrecord : record ∈ s.spool.ledger.records) (hfails : PruneFails faults record s) :
    PassesOver fmt faults now s record := by
  -- A failing prune is one of the reasons for which a segment is not pruned.
  have hnot : ∀ f : SegmentFaults, f = faults record.batchId →
      ¬ (f.read = none ∧ WhollyExpired fmt s.spool now record ∧
        Prunes f.prune record s.spool.ledger) := by
    rintro f rfl ⟨-, -, hfault, htombstone, -⟩
    rcases hfails with hfails | hfails
    · exact hfails hfault
    · rw [htombstone] at hfails
      cases hfails
  -- So every record of this batch id, and there is one, is passed over.
  have hskip : ∀ r ∈ s.spool.ledger.records, r.batchId = record.batchId →
      (applyOne fmt (faults r.batchId) now r s).1.toOption = none := by
    intro r hr hb
    obtain rfl : r = record := List.inj_on_of_nodup_map (records_nodup _) hr hrecord hb
    rcases applyOne_cases fmt (faults r.batchId) now r s with ⟨hdo, -⟩ | ⟨-, happly⟩
    · exact absurd hdo (hnot _ rfl)
    · rw [happly]
      rfl
  obtain ⟨hresult, haudit, huntouched⟩ :=
    @applyAll_eq fmt now faults _ s (records_nodup _) ⟨[], []⟩
  refine ⟨huntouched record hskip, ?_, ?_, ?_, ?_⟩
  · rw [retentionApply_eq]
    intro hmem
    obtain ⟨p, hp, hb⟩ := List.mem_map.mp hmem
    obtain ⟨outcome, houtcome, hto⟩ := List.mem_filterMap.mp hp
    obtain ⟨r, hr, rfl⟩ := List.mem_map.mp houtcome
    rw [applyOne_batchId.1 p hto] at hb
    rw [hskip r hr hb] at hto
    cases hto
  · intro hread hexpired
    rw [retentionApply_eq]
    refine List.mem_filterMap.mpr ⟨_, List.mem_map_of_mem hrecord, ?_⟩
    rcases applyOne_cases fmt (faults record.batchId) now record s with ⟨hdo, -⟩ | ⟨-, happly⟩
    · exact absurd hdo (hnot _ rfl)
    · rw [happly, hread]
      rcases @classify_fullyExpired fmt record now s.spool with ⟨-, hclass⟩ | ⟨hnotExpired, -⟩
      · rw [hclass]
        rfl
      · exact absurd hexpired hnotExpired
  · rw [retentionApply_eq]
    exact haudit
  · intro instead
    rw [retentionApply_eq, retentionApply_eq]
    -- The other records do not meet the faults of this one.
    have hother : ∀ r ∈ s.spool.ledger.records, r.batchId ≠ record.batchId →
        (applyOne fmt (faults r.batchId) now r s).1 = (applyOne fmt
          (Function.update faults record.batchId instead r.batchId) now r s).1 := by
      intro r _ hne
      rw [Function.update_of_ne hne]
    unfold RetentionResult.of
    simp only [List.filterMap_map]
    constructor
    · exact filter_filterMap_congr (fun r _ p hp => applyOne_batchId.1 p hp)
        (fun r _ p hp => applyOne_batchId.1 p hp)
        fun r hr hne => congrArg Except.toOption (hother r hr hne)
    · exact filter_filterMap_congr (fun r _ e he => applyOne_batchId.2 e he)
        (fun r _ e he => applyOne_batchId.2 e he)
        fun r hr hne => congrArg skippedOf (hother r hr hne)

/-- A turn without failures, of a segment without a tombstone. -/
theorem applyOne_healthy (hnone : WhollyExpired fmt s.spool now record →
      s.spool.ledger.retirements.lookup record.batchId = none) :
    let entry := classify fmt s.spool now record
    (applyOne fmt .none now record s).1 =
      if entry.status = .fullyExpired then
        .ok ⟨entry.batchId, entry.recordCount, entry.byteSize, entry.delivered, .removed⟩
      else .error entry := by
  intro entry
  rcases @classify_fullyExpired fmt record now s.spool with
    ⟨hexpired, hclass⟩ | ⟨hexpired, hstatus⟩
  · rcases applyOne_cases fmt .none now record s with ⟨-, s', happly, -⟩ | ⟨hnot, -⟩
    · rw [happly]
      simp only [entry, hclass]
      have hremoved := hexpired.removed
      show Except.ok _ = Except.ok _
      simp only [SegmentFaults.none, hremoved, report]
    · exact absurd ⟨rfl, hexpired, rfl, hnone hexpired, hexpired.auditable⟩ hnot
  · rcases applyOne_cases fmt .none now record s with ⟨hdo, -⟩ | ⟨-, happly⟩
    · exact absurd hdo.2.1 hexpired
    · rw [happly]
      simp only [SegmentFaults.none, entry, if_neg hstatus]

end Agreement

section Agreement

variable {fmt : SegmentFormat} {now : Instant} {s : RetentionState}

/-- Splitting the outcomes of turns by the status of their preview. -/
theorem of_healthy {α : Type} (entries : List α) (entry : α → SegmentRetention)
    (outcome : α → Except SegmentRetention PrunedSegment)
    (h : ∀ r ∈ entries, outcome r =
      if (entry r).status = .fullyExpired then
        .ok ⟨(entry r).batchId, (entry r).recordCount, (entry r).byteSize, (entry r).delivered,
          .removed⟩
      else .error (entry r)) :
    (RetentionResult.of (entries.map outcome)).pruned =
        ((entries.map entry).filter fun e => e.status = .fullyExpired).map (fun e =>
          ⟨e.batchId, e.recordCount, e.byteSize, e.delivered, .removed⟩) ∧
      (RetentionResult.of (entries.map outcome)).skipped =
        (entries.map entry).filter fun e => e.status ≠ .fullyExpired := by
  induction entries with
  | nil => exact ⟨rfl, rfl⟩
  | cons r rest ih =>
      obtain ⟨hpruned, hskipped⟩ := ih fun x hx => h x (List.mem_cons_of_mem _ hx)
      rw [List.map_cons, List.map_cons, RetentionResult.of_cons.1, RetentionResult.of_cons.2,
        hpruned, hskipped, h r List.mem_cons_self]
      by_cases hstatus : (entry r).status = .fullyExpired
      · rw [if_pos hstatus, List.filter_cons_of_pos (by simpa using hstatus),
          List.filter_cons_of_neg (by simpa using hstatus)]
        exact ⟨rfl, rfl⟩
      · rw [if_neg hstatus, List.filter_cons_of_neg (by simpa using hstatus),
          List.filter_cons_of_pos (by simpa using hstatus)]
        exact ⟨rfl, rfl⟩

/-- Equal lists of segments have equal totals and equal undelivered segments. -/
theorem agree_of_lists {preview : RetentionPreview} {result : RetentionResult}
    (hpruned : result.pruned = preview.fullyExpired.map fun e =>
      ⟨e.batchId, e.recordCount, e.byteSize, e.delivered, .removed⟩)
    (hskipped : result.skipped = preview.segments.filter fun e => e.status ≠ .fullyExpired) :
    Agree preview result := by
  refine ⟨hpruned, ?_, ?_, ?_, hskipped⟩
  · unfold RetentionResult.prunedRecords RetentionPreview.reclaimableRecords
    rw [hpruned, List.map_map]
    rfl
  · unfold RetentionResult.prunedBytes RetentionPreview.reclaimableBytes
    rw [hpruned, List.map_map]
    rfl
  · unfold RetentionResult.undeliveredPruned RetentionPreview.undeliveredExpired
    rw [hpruned, List.filter_map, List.map_map]
    rfl

/-- **The pass does what the preview says**, and passes over every prune that fails, exactly where
no segment that has wholly expired already has a tombstone. -/
theorem retention_faithful_iff (fmt : SegmentFormat) (now : Instant) (s : RetentionState) :
    Faithful fmt now s ↔ ∀ record ∈ s.spool.ledger.records,
      WhollyExpired fmt s.spool now record →
        s.spool.ledger.retirements.lookup record.batchId = none := by
  constructor
  · rintro ⟨hagree, hpasses⟩ record hrecord hexpired
    by_contra htombstone
    have hfails : PruneFails (fun _ => .none) record s :=
      Or.inr (Option.isSome_iff_ne_none.mpr htombstone)
    -- the pass skips the segment, under a status that no skipped segment of the preview has
    have hskipped := (hpasses _ record hrecord hfails).reported rfl hexpired
    rw [hagree.skipped] at hskipped
    have hstatus := (List.mem_filter.mp hskipped).2
    simp [report] at hstatus
  · intro hnone
    refine ⟨?_, fun faults record hrecord hfails => passesOver hrecord hfails⟩
    obtain ⟨hpruned, hskipped⟩ := of_healthy s.spool.ledger.records (classify fmt s.spool now)
      (fun r => (applyOne fmt .none now r s).1) fun r hr => applyOne_healthy (hnone r hr)
    rw [retentionApply_eq]
    exact agree_of_lists hpruned hskipped

end Agreement

/-! ## A tombstone in the way -/

/-- The row of the sample segment. -/
def sampleRow : SegmentRow where
  day := 0
  schemaVersion := schemaVersion
  frameVersion := frameVersion
  configGeneration := zeroDigest
  scope := .installation
  targetId := none
  privacyClass := .internal
  retentionDays := 1
  recordCount := 1
  contentSha256 := zeroDigest
  byteSize := 1
  fileSha256 := sampleDigest [0]
  committedAt := 0
  origin := .reconciled

/-- A readable, agreeing segment, and the tombstone of other bytes that had its batch id. -/
def tombstoneInTheWay : RetentionState where
  spool :=
    { dirs := AList.singleton (.pending, 0)
        ⟨AList.singleton (segmentName "b1") ⟨[0], 0, .private⟩, []⟩
      ledger :=
        { segments := AList.singleton "b1" sampleRow
          exporters := AList.singleton ("b1", "x") .pending
          retirements := AList.singleton "b1" ⟨0, zeroDigest, 0⟩
          cursors := ∅ }
      nextInode := 1
      history := [] }
  audit := []

/-- The instant at which the sample frame expires. -/
def sampleDeadline : Instant := ⟨5000, by decide⟩

/-- The preview lists the segment as fully expired; the pass does not prune it. -/
theorem retention_tombstone_in_the_way :
    ¬ Faithful sampleFormat sampleDeadline tombstoneInTheWay := by
  intro h
  have hpruned := h.1.pruned
  revert hpruned
  decide +kernel

end Milhouse.Retention
