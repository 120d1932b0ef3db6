import Milhouse.Spool.Verify
import Mathlib.Data.List.Dedup

/-!
# Milhouse — what a pass decides about a tree at rest

Classification is followed phase by phase over a store that does not change under it: the inventory,
the route of each candidate, the conflicts and what is absent. `Classified` says what may have been
queued, registered or retired so far, and the count is the number of healthy segments so far.

* **`classify_told`** — what classification counts, registers and queues;
* **`mem_healthyIds`** — what it counts is the records whose file agrees with them, whether the pass
  came by the file as the only one of its batch or among several;
* **`nodup_healthyIds`** — none of them is counted twice.
-/

namespace Milhouse.Verify

open Interaction Interaction.Prog

/-! ## The candidates -/

section Candidates

variable {s : SpoolState} {c c' : Candidate} {b : String}

/-- The inventory lists the names of `pending`. -/
theorem mem_leaves {day : Day} {name : String} :
    (day, name) ∈ s.leaves ↔ (s.file ⟨.pending, day, name⟩).isSome := by
  unfold SpoolState.leaves SpoolState.file SpoolState.dir
  rw [List.mem_flatMap]
  constructor
  · rintro ⟨⟨⟨tree, d⟩, dir⟩, hdir, hleaf⟩
    dsimp only at hleaf
    split at hleaf
    · rename_i htree
      obtain rfl : tree = .pending := htree
      obtain ⟨⟨n, f⟩, hfile, heq⟩ := List.mem_map.mp hleaf
      obtain ⟨rfl, rfl⟩ := Prod.mk.inj heq
      rw [AList.mem_lookup_iff.mpr hdir, Option.getD_some]
      exact Option.isSome_iff_exists.mpr ⟨f, AList.mem_lookup_iff.mpr hfile⟩
    · cases hleaf
  · intro h
    cases hdir : s.dirs.lookup (.pending, day) with
    | none =>
        rw [hdir] at h
        simp [Disk.Dir.empty] at h
    | some dir =>
        rw [hdir, Option.getD_some] at h
        obtain ⟨f, hf⟩ := Option.isSome_iff_exists.mp h
        refine ⟨⟨(.pending, day), dir⟩, AList.mem_lookup_iff.mp hdir, ?_⟩
        rw [if_pos rfl]
        exact List.mem_map.mpr ⟨⟨name, f⟩, AList.mem_lookup_iff.mp hf, rfl⟩

/-- No leaf is listed twice. -/
theorem nodup_leaves : s.leaves.Nodup := by
  unfold SpoolState.leaves
  refine List.nodup_flatMap.mpr ⟨fun e _ => ?_, ?_⟩
  · split
    · have hkeys : (e.2.current.entries.map Sigma.fst).Nodup := e.2.current.nodupKeys
      have hpair := hkeys.map fun a b (h : (e.1.2, a) = (e.1.2, b)) => (Prod.mk.inj h).2
      rwa [List.map_map] at hpair
    · exact List.nodup_nil
  · have hkeys : s.dirs.entries.Pairwise fun e e' => e.1 ≠ e'.1 :=
      List.pairwise_map.mp s.dirs.nodupKeys
    refine hkeys.imp fun {e e'} hne => ?_
    rintro ⟨day, name⟩ h h'
    dsimp only at h h'
    split at h
    · split at h'
      · rename_i htree htree'
        obtain ⟨f, -, hf⟩ := List.mem_map.mp h
        obtain ⟨f', -, hf'⟩ := List.mem_map.mp h'
        refine hne (Prod.ext (htree.trans htree'.symm) ?_)
        exact (Prod.mk.inj hf).1.trans (Prod.mk.inj hf').1.symm
      · cases h'
    · cases h

theorem candidateOf_eq_some {leaf : Day × String} (h : candidateOf leaf = some c) :
    leaf = (c.day, segmentName c.batchId) ∧ matchesBatchId c.batchId = true := by
  unfold candidateOf at h
  split at h
  · cases h
  · split at h
    · rename_i batchId hname
      obtain rfl := Option.some.inj h
      obtain ⟨hleaf, hid⟩ := batchIdOfName_ok hname
      exact ⟨Prod.ext rfl hleaf, hid⟩
    · cases h

/-- The name of a segment is classified as its batch id. -/
theorem batchIdOfName_segmentName (h : matchesBatchId b = true) :
    batchIdOfName (segmentName b) = .ok b := by
  have hsuffix : ".jsonl".toList <:+ (segmentName b).toList := by
    rw [segmentName_toList]
    exact List.suffix_append _ _
  have hstem : (segmentName b).toList.take ((segmentName b).length - ".jsonl".length) =
      b.toList := by
    rw [← String.length_toList, ← String.length_toList, segmentName_toList, List.length_append,
      Nat.add_sub_cancel, List.take_left]
  unfold batchIdOfName
  rw [if_pos hsuffix]
  dsimp only
  rw [hstem, String.ofList_toList, if_pos h]

/-- The candidates are the files with the name of a segment. -/
theorem mem_candidates :
    c ∈ candidates s ↔ matchesBatchId c.batchId = true ∧ (s.file c.path).isSome := by
  unfold candidates
  rw [List.mem_filterMap]
  constructor
  · rintro ⟨leaf, hleaf, hc⟩
    obtain ⟨rfl, hid⟩ := candidateOf_eq_some hc
    exact ⟨hid, mem_leaves.mp hleaf⟩
  · rintro ⟨hid, hfile⟩
    refine ⟨(c.day, segmentName c.batchId), mem_leaves.mpr hfile, ?_⟩
    unfold candidateOf
    have hstage := stagePrefix_not_prefix hid
    rw [if_neg hstage, batchIdOfName_segmentName hid]

theorem nodup_candidates : (candidates s).Nodup := by
  refine nodup_leaves.filterMap fun leaf leaf' c hc hc' => ?_
  exact (candidateOf_eq_some hc).1.trans (candidateOf_eq_some hc').1.symm

theorem mem_copiesOf {cs : List Candidate} :
    c ∈ copiesOf cs b ↔ c ∈ cs ∧ c.batchId = b := by
  simp [copiesOf]

/-- A single candidate is the only one with its batch id. -/
theorem single_unique (h : single s c = true) (hc : c ∈ candidates s) (hc' : c' ∈ candidates s)
    (hb : c'.batchId = c.batchId) : c' = c := by
  have hmem : c ∈ copiesOf (candidates s) c.batchId := mem_copiesOf.mpr ⟨hc, rfl⟩
  have hmem' : c' ∈ copiesOf (candidates s) c.batchId := mem_copiesOf.mpr ⟨hc', hb⟩
  unfold single at h
  match hcopies : copiesOf (candidates s) c.batchId, hmem, hmem' with
  | [x], hmem, hmem' =>
      exact (List.mem_singleton.mp hmem').trans (List.mem_singleton.mp hmem).symm
  | x :: y :: rest, _, _ =>
      rw [hcopies] at h
      simp at h

theorem recordFor_eq_some {record : SegmentRecord} (h : recordFor s b = some record) :
    record ∈ s.ledger.records ∧ record.batchId = b :=
  ⟨List.mem_of_find?_eq_some h, by simpa using List.find?_some h⟩

/-- The ledger has one record for a batch id. -/
theorem recordFor_of_mem {record : SegmentRecord} (h : record ∈ s.ledger.records) :
    recordFor s record.batchId = some record := by
  cases hfind : recordFor s record.batchId with
  | none => simpa using List.find?_eq_none.mp hfind record h
  | some r =>
      obtain ⟨hr, hid⟩ := recordFor_eq_some hfind
      obtain ⟨hrow, hrecord⟩ := Ledger.mem_records.mp hr
      obtain ⟨hrow', hrecord'⟩ := Ledger.mem_records.mp h
      rw [hid, hrow'] at hrow
      rw [hid, ← Option.some.inj hrow, ← hrecord'] at hrecord
      rw [hrecord]

end Candidates

/-- What an agreement of a file with a record says of the two. -/
theorem agrees_true {Frame : Type} {parsed : ParsedSegment Frame} {day : Day} {b : String}
    {record : SegmentRecord} (h : agrees parsed day b record = true) :
    (parsed.header.batchId = b ∧ b = record.batchId ∧ day = record.day) ∧
      parsed.header.recordCount = record.recordCount ∧
      parsed.header.contentSha256 = record.contentSha256 ∧ parsed.byteSize = record.byteSize ∧
      parsed.fileSha256 = record.fileSha256 := by
  simp only [agrees, Bool.and_eq_true, decide_eq_true_eq] at h
  obtain ⟨⟨⟨⟨⟨⟨⟨⟨⟨⟨⟨⟨⟨⟨⟨hheader, hbatch⟩, hday⟩, -⟩, -⟩, -⟩, -⟩, -⟩, -⟩, -⟩, hcount⟩, hcontent⟩, hsize⟩,
    hsha⟩, -⟩, -⟩ := h
  exact ⟨⟨hheader, hbatch, hday⟩, hcount, hcontent, hsize, hsha⟩

/-! ## Classification of a tree at rest -/

/-- The leaf is a file of no other name. -/
def Unshared (s : SpoolState) (p : Path) : Prop :=
  ∃ f, s.stat p = some f ∧ f.shape ≠ .loose ∧ f.shape ≠ .special

section Classification

variable (fmt : SegmentFormat) (s : SpoolState)

/-- The file is a segment that `_reconcile_orphan` takes in. -/
structure Adoptable (c : Candidate) (parsed : ParsedSegment fmt.Frame) : Prop where
  read : Retention.trustedSegment fmt s c.path = .ok parsed
  batchId : parsed.header.batchId = c.batchId
  privacy : authorizeLocalPersistence parsed.header.privacyClass = true

/-- The pass has a reason to move the candidate away. -/
structure Refused (c : Candidate) : Prop where
  record : ∀ record, recordFor s c.batchId = some record → accepts fmt s c record = false
  orphan : single s c = true → recordFor s c.batchId = none → ∀ parsed, ¬ Adoptable fmt s c parsed

/-- What has been decided once the candidates of `done` were routed. -/
structure Classified (done : List Candidate) (scan : Scan fmt.Frame) : Prop where
  quarantines : ∀ q ∈ scan.quarantines, Unshared s ⟨.pending, q.day, q.name⟩ ∧
    (stagePrefix.toList <+: q.name.toList ∨
      ∃ c, (⟨.pending, q.day, q.name⟩ : Path) = c.path ∧ Refused fmt s c)
  cleanups : ∀ x ∈ scan.cleanups, Unshared s ⟨.pending, x.1, x.2.1⟩ ∧
    stagePrefix.toList <+: x.2.1.toList
  retirements : ∀ x ∈ scan.retirements, (⟨x.1, x.2.1⟩ : Candidate) ∈ done ∧
    recordFor s x.2.1 = none
  registrations : ∀ o ∈ scan.registrations, (⟨o.day, o.batchId⟩ : Candidate) ∈ done ∧
    single s ⟨o.day, o.batchId⟩ = true ∧ recordFor s o.batchId = none ∧
    Adoptable fmt s ⟨o.day, o.batchId⟩ o.parsed
  apart : ∀ o ∈ scan.registrations, ∀ x ∈ scan.retirements, x.2.1 ≠ o.batchId

variable {fmt s} {scan : Scan fmt.Frame} {done : List Candidate} {c : Candidate}

theorem Classified.anomaly (h : Classified fmt s done scan) (batchId : String) (day : Option Day)
    (kind detail : String) : Classified fmt s done (scan.anomaly batchId day kind detail) :=
  ⟨h.quarantines, h.cleanups, h.retirements, h.registrations, h.apart⟩

theorem Classified.tombstone (h : Classified fmt s done scan) (batchId : String) (day : Day) :
    Classified fmt s done (scan.tombstone batchId day) :=
  ⟨h.quarantines, h.cleanups, h.retirements, h.registrations, h.apart⟩

/-- Another candidate was routed, and nothing was decided about it. -/
theorem Classified.append (h : Classified fmt s done scan) (c : Candidate) :
    Classified fmt s (done ++ [c]) scan where
  quarantines := h.quarantines
  cleanups := h.cleanups
  retirements x hx := (h.retirements x hx).imp_left (List.mem_append_left _)
  registrations o ho := (h.registrations o ho).imp_left (List.mem_append_left _)
  apart := h.apart

theorem told_readTrusted {p : Path} {inventoried : Bool} :
    Told s (readTrustedSegment fmt p inventoried)
    fun x => x = Retention.trustedSegment fmt s p := by
  unfold readTrustedSegment
  refine told_call trivial fun c r hstep => ?_
  obtain rfl := rest_readTrusted hstep
  unfold SpoolState.opened Retention.trustedSegment
  cases hstat : s.stat p with
  | none => exact told_ret rfl
  | some f =>
      dsimp only
      split
      · exact told_ret rfl
      · split
        · exact told_ret rfl
        · split
          · exact told_ret rfl
          · cases fmt.read f.content <;> exact told_ret rfl

/-- A leaf that can be certified is private. -/
theorem told_certify {p : Path} : Told s (certifyLeaf fmt p)
    fun found => found.isSome → Unshared s p := by
  unfold certifyLeaf
  refine told_call trivial fun c r hstep => ?_
  obtain ⟨-, rfl | rfl⟩ := SpoolState.perform_readFile (rest_perform hstep)
  · unfold SpoolState.opened
    cases hstat : s.stat p with
    | none => exact told_ret nofun
    | some f =>
        dsimp only
        split
        · rename_i hshape
          refine told_ret fun _ => ⟨f, hstat, ?_, ?_⟩
          · rw [hshape.1]
            decide
          · rw [hshape.1]
            decide
        · exact told_ret nofun
  · exact told_ret nofun

theorem told_queueQuarantine {day : Day} {name b detail : String}
    (h : Classified fmt s done scan)
    (hname : stagePrefix.toList <+: name.toList ∨
      ∃ c, (⟨.pending, day, name⟩ : Path) = c.path ∧ Refused fmt s c) :
    Told s (queueQuarantine fmt scan day name b detail) fun scan' =>
      Classified fmt s done scan' ∧ scan'.healthy = scan.healthy ∧
        scan'.candidates = scan.candidates := by
  unfold queueQuarantine
  refine told_seq told_certify fun found hfound => ?_
  cases found with
  | none => exact told_ret ⟨h.anomaly _ _ _ _, rfl, rfl⟩
  | some x =>
      refine told_ret ⟨⟨fun q hq => ?_, h.cleanups, h.retirements, h.registrations, h.apart⟩,
        rfl, rfl⟩
      rcases List.mem_append.mp hq with hq | hq
      · exact h.quarantines q hq
      · obtain rfl := List.mem_singleton.mp hq
        exact ⟨hfound rfl, hname⟩

/-- **A candidate with a record** is counted where the two agree. -/
theorem told_verifyCommitted {record : SegmentRecord} (h : Classified fmt s done scan)
    (hrecord : recordFor s c.batchId = some record) :
    Told s (verifyCommitted fmt scan c record) fun scan' => Classified fmt s done scan' ∧
      scan'.healthy = scan.healthy + if accepts fmt s c record then 1 else 0 := by
  -- A file that is not accepted is queued, and it may be: it is refused for every record of its
  -- id.
  have hqueue : accepts fmt s c record = false → ∀ detail,
      Told s (queueQuarantine fmt (scan.anomaly c.batchId (some c.day) "corrupt_file" detail)
        c.day (segmentName c.batchId) c.batchId detail) fun scan' => Classified fmt s done scan' ∧
        scan'.healthy = scan.healthy + if accepts fmt s c record then 1 else 0 := by
    intro hrefused detail
    have hr : Refused fmt s c := by
      constructor
      · intro record' hrecord'
        rw [hrecord] at hrecord'
        obtain rfl := Option.some.inj hrecord'
        exact hrefused
      · intro _ hnone
        rw [hrecord] at hnone
        cases hnone
    refine told_mono (told_queueQuarantine (h.anomaly _ _ _ _) (Or.inr ⟨c, rfl, hr⟩)) ?_
    rintro scan' ⟨hscan', hhealthy, -⟩
    rw [hrefused]
    exact ⟨hscan', hhealthy⟩
  unfold verifyCommitted
  refine told_seq told_readTrusted fun x hx => ?_
  cases x with
  -- An unreadable file is kept for a later pass or queued, and neither counts as healthy.
  | error code =>
      have hrefused : accepts fmt s c record = false := by
        unfold accepts
        rw [← hx]
      dsimp only
      split
      · refine told_ret ⟨h.anomaly _ _ _ _, ?_⟩
        rw [hrefused]
        rfl
      · exact hqueue hrefused code
  | ok parsed =>
      -- What was read agrees with the record exactly if the file is accepted.
      have haccepts : accepts fmt s c record = agrees parsed c.day c.batchId record := by
        unfold accepts
        rw [← hx]
      dsimp only
      split
      · rename_i hagrees
        refine told_ret ⟨⟨h.quarantines, h.cleanups, h.retirements, h.registrations, h.apart⟩, ?_⟩
        rw [haccepts, hagrees]
        rfl
      · rename_i hagrees
        exact hqueue (haccepts.trans (by simpa using hagrees)) _

/-- **A candidate without a record** is registered only where it can be adopted. -/
theorem told_reconcileOrphan (h : Classified fmt s done scan) (hdone : ∀ x ∈ done, x ∈ candidates s)
    (hc : c ∈ candidates s) (hnew : c ∉ done) (hsingle : single s c = true)
    (hrecord : recordFor s c.batchId = none) :
    Told s (reconcileOrphan fmt scan c) fun scan' => Classified fmt s (done ++ [c]) scan' ∧
      scan'.healthy = scan.healthy := by
  have hqueue : (∀ parsed, ¬ Adoptable fmt s c parsed) → ∀ detail,
      Told s (queueQuarantine fmt (scan.anomaly c.batchId (some c.day) "corrupt_orphan" detail)
        c.day (segmentName c.batchId) c.batchId detail) fun scan' =>
        Classified fmt s (done ++ [c]) scan' ∧ scan'.healthy = scan.healthy := by
    intro hrefused detail
    have hr : Refused fmt s c := by
      constructor
      · intro record hrecord'
        rw [hrecord] at hrecord'
        cases hrecord'
      · exact fun _ _ => hrefused
    refine told_mono (told_queueQuarantine (h.anomaly _ _ _ _) (Or.inr ⟨c, rfl, hr⟩)) ?_
    rintro scan' ⟨hscan', hhealthy, -⟩
    exact ⟨hscan'.append c, hhealthy⟩
  unfold reconcileOrphan
  refine told_seq told_readTrusted fun x hx => ?_
  cases x with
  | error code =>
      have hrefused : ∀ parsed, ¬ Adoptable fmt s c parsed := by
        intro parsed hadopt
        rw [hadopt.read] at hx
        cases hx
      dsimp only
      split
      · exact told_ret ⟨(h.anomaly _ _ _ _).append c, rfl⟩
      · exact hqueue hrefused code
  | ok parsed =>
      dsimp only
      split
      · exact told_ret ⟨(h.anomaly _ _ _ _).append c, rfl⟩
      · rename_i hbatch
        split
        · rename_i hprivacy
          refine hqueue (fun parsed' hadopt => ?_) _
          rw [hadopt.read] at hx
          obtain rfl := Except.ok.inj hx
          rw [hadopt.privacy] at hprivacy
          cases hprivacy
        · rename_i hprivacy
          have hadopt : Adoptable fmt s c parsed :=
            ⟨hx.symm, not_not.mp hbatch, by simpa using hprivacy⟩
          have happend := h.append c
          refine told_ret ⟨⟨h.quarantines, h.cleanups, happend.retirements, ?_, ?_⟩, rfl⟩
          · intro o ho
            rcases List.mem_append.mp ho with ho | ho
            · exact happend.registrations o ho
            · obtain rfl := List.mem_singleton.mp ho
              exact ⟨List.mem_append_right _ (List.mem_singleton_self c), hsingle, hrecord, hadopt⟩
          · intro o ho x hretired
            rcases List.mem_append.mp ho with ho | ho
            · exact h.apart o ho x hretired
            · -- a retired file of the same batch would be this one, which has not been routed
              obtain rfl := List.mem_singleton.mp ho
              intro hb
              have hmem := (h.retirements x hretired).1
              rw [single_unique hsingle hc (hdone _ hmem) hb] at hmem
              exact hnew hmem

end Classification

/-! ## The phases of classification -/

section Phases

variable {fmt : SegmentFormat} {s : SpoolState} {scan : Scan fmt.Frame}

/-- The inventory finds the candidates, and queues only temporaries. -/
theorem told_inventoryLeaf {before : List (Day × String)} {leaf : Day × String}
    (h : Classified fmt s [] scan) (hcandidates : scan.candidates = before.filterMap candidateOf) :
    Told s (inventoryLeaf fmt scan leaf) fun r => r.1 = true ∧ Classified fmt s [] r.2 ∧
      r.2.healthy = scan.healthy ∧ r.2.candidates = (before ++ [leaf]).filterMap candidateOf := by
  obtain ⟨day, name⟩ := leaf
  unfold inventoryLeaf
  rw [List.filterMap_append, ← hcandidates]
  dsimp only
  split
  · rename_i hstage
    have hnone : [(day, name)].filterMap candidateOf = [] :=
      List.filterMap_cons_none (by unfold candidateOf; rw [if_pos hstage])
    rw [hnone, List.append_nil]
    refine told_call trivial fun c r hstep => ?_
    -- A staged temporary is queued for quarantine unless it is one that a failed retirement left.
    have hqueue : Told s (do
        let scan' ← queueQuarantine fmt (scan.anomaly "" (some day) "stale_temp" "staged_temporary")
          day name "" "stale_temp"
        pure (true, scan')) fun r => r.1 = true ∧ Classified fmt s [] r.2 ∧
          r.2.healthy = scan.healthy ∧ r.2.candidates = scan.candidates :=
      told_seq (told_queueQuarantine (h.anomaly _ _ _ _) (Or.inl hstage))
        fun scan' hscan' => told_ret ⟨rfl, hscan'⟩
    -- At rest the read either answers with the file or fails, and a failed read queues the leaf
    -- too.
    obtain ⟨-, rfl | rfl⟩ := SpoolState.perform_readFile (rest_perform hstep)
    · cases hopened : s.opened ⟨.pending, day, name⟩ with
      | error e => exact hqueue
      | ok f =>
          dsimp only
          split
          · rename_i snapshot hfailed
            refine told_ret ⟨rfl, ⟨h.quarantines, fun x hx => ?_, h.retirements, h.registrations,
              h.apart⟩, rfl, rfl⟩
            rcases List.mem_append.mp hx with hx | hx
            · exact h.cleanups x hx
            · obtain rfl := List.mem_singleton.mp hx
              refine ⟨⟨f, ?_, ?_⟩, hstage⟩
              · unfold SpoolState.opened at hopened
                cases hstat : s.stat ⟨.pending, day, name⟩ with
                | none => rw [hstat] at hopened; cases hopened
                | some g => rw [hstat] at hopened; rw [Except.ok.inj hopened]
              · unfold failedStagingSnapshot at hfailed
                dsimp only at hfailed
                split at hfailed
                · rename_i hshape
                  rw [hshape.2.1]
                  decide
                · cases hfailed
          · exact hqueue
    · exact hqueue
  · rename_i hstage
    -- A name without a batch id is an anomaly and no candidate.
    cases hname : batchIdOfName name with
    | error detail =>
        have hleaf : [(day, name)].filterMap candidateOf = [] :=
          List.filterMap_cons_none (by unfold candidateOf; rw [if_neg hstage, hname])
        rw [hleaf, List.append_nil]
        exact told_ret ⟨rfl, h.anomaly _ _ _ _, rfl, rfl⟩
    | ok batchId =>
        have hleaf : [(day, name)].filterMap candidateOf = [⟨day, batchId⟩] :=
          List.filterMap_cons_some (by unfold candidateOf; rw [if_neg hstage, hname])
        rw [hleaf]
        exact told_ret ⟨rfl, ⟨h.quarantines, h.cleanups, h.retirements, h.registrations, h.apart⟩,
          rfl, rfl⟩

/-- What a turn adds to the count. -/
def tally (b : Bool) : Nat := if b then 1 else 0

/-- **The route of one candidate.** -/
theorem told_routeCandidate {before after : List Candidate} {c : Candidate}
    {retirements : List (String × Retirement)} (hcs : candidates s = before ++ c :: after)
    (h : Classified fmt s before scan) :
    Told s (routeCandidate fmt s.ledger.records retirements (candidates s) scan c) fun r =>
      r.1 = true ∧ Classified fmt s (before ++ [c]) r.2 ∧
        r.2.healthy = scan.healthy + tally (counts fmt s c) := by
  have hc : c ∈ candidates s := by
    rw [hcs]
    exact List.mem_append_right _ List.mem_cons_self
  have hdone : ∀ x ∈ before, x ∈ candidates s := by
    intro x hx
    rw [hcs]
    exact List.mem_append_left _ hx
  have hnew : c ∉ before := by
    have hnodup := nodup_candidates (s := s)
    rw [hcs] at hnodup
    exact fun hmem => (List.disjoint_of_nodup_append hnodup) hmem List.mem_cons_self
  unfold routeCandidate
  split
  · rename_i hcopies
    have hcounts : counts fmt s c = false := by
      unfold counts single
      rw [decide_eq_false (Nat.not_le.mpr hcopies), Bool.false_and]
    rw [hcounts]
    exact told_ret ⟨rfl, (h.anomaly _ _ _ _).append c, rfl⟩
  · rename_i hcopies
    have hsingle : single s c = true := decide_eq_true (Nat.not_lt.mp hcopies)
    have hrecords : recordOf s.ledger.records c.batchId = recordFor s c.batchId := rfl
    rw [hrecords]
    cases hrecord : recordFor s c.batchId with
    | some record =>
        have hcounts : counts fmt s c = accepts fmt s c record := by
          unfold counts
          rw [hsingle, hrecord, Bool.true_and, Option.any_some]
        refine told_seq (told_verifyCommitted h hrecord) fun scan' hscan' => told_ret ⟨rfl, ?_⟩
        rw [hcounts]
        exact ⟨hscan'.1.append c, hscan'.2⟩
    | none =>
        have hcounts : counts fmt s c = false := by
          unfold counts
          rw [hrecord, Option.any_none, Bool.and_false]
        rw [hcounts]
        have horphan : ∀ scan', Classified fmt s before scan' → scan'.healthy = scan.healthy →
            Told s (do pure (true, ← reconcileOrphan fmt scan' c)) fun r => r.1 = true ∧
              Classified fmt s (before ++ [c]) r.2 ∧ r.2.healthy = scan.healthy + tally false := by
          intro scan' hscan' hhealthy
          refine told_seq (told_reconcileOrphan hscan' hdone hc hnew hsingle hrecord) ?_
          exact fun scan'' hscan'' => told_ret ⟨rfl, hscan''.1, hscan''.2.trans hhealthy⟩
        dsimp only
        cases retirementOf retirements c.batchId with
        | none => exact horphan scan h rfl
        | some retirement =>
            refine told_seq (told_observes rawSha256_only) fun digest _ => ?_
            split
            · have happend := h.append c
              refine told_ret ⟨rfl, ⟨h.quarantines, h.cleanups, fun x hx => ?_,
                happend.registrations, fun o ho x hx => ?_⟩, rfl⟩
              · rcases List.mem_append.mp hx with hx | hx
                · exact happend.retirements x hx
                · obtain rfl := List.mem_singleton.mp hx
                  exact ⟨List.mem_append_right _ (List.mem_singleton_self c), hrecord⟩
              · rcases List.mem_append.mp hx with hx | hx
                · exact h.apart o ho x hx
                · -- an orphan of the same batch would be this one, which has not been routed
                  obtain rfl := List.mem_singleton.mp hx
                  intro hb
                  have hmem := (h.registrations o ho).1
                  rw [single_unique hsingle hc (hdone _ hmem) hb.symm] at hmem
                  exact hnew hmem
            · exact horphan _ (h.tombstone _ _) rfl

/-- **The keeper of a conflict.** -/
theorem told_findKeeper {b : String} :
    Told s (findKeeper fmt s.ledger.records b (copiesOf (candidates s) b))
      fun found => found = keeper fmt s b := by
  unfold findKeeper
  have hrecords : recordOf s.ledger.records b = recordFor s b := rfl
  rw [hrecords]
  cases hrecord : recordFor s b with
  | none =>
      refine told_ret ?_
      unfold keeper
      rw [hrecord, Option.bind_none]
  | some record =>
      dsimp only
      cases hcopy : (copiesOf (candidates s) b).find? (·.day = record.day) with
      | none =>
          refine told_ret ?_
          unfold keeper
          rw [hrecord, Option.bind_some, hcopy, Option.filter_none]
      | some c =>
          have hb : c.batchId = b := (mem_copiesOf.mp (List.mem_of_find?_eq_some hcopy)).2
          have hkeeper : keeper fmt s b = if accepts fmt s c record then some c else none := by
            unfold keeper
            rw [hrecord, Option.bind_some, hcopy, Option.filter_some]
          refine told_seq told_readTrusted fun x hx => ?_
          unfold accepts at hkeeper
          rw [← hx] at hkeeper
          cases x with
          | error code => exact told_ret hkeeper.symm
          | ok parsed =>
              refine told_ret ?_
              rw [hkeeper, hb]

/-- A copy of a conflicted batch that the pass moves away is refused. -/
theorem refused_of_ne_keeper {b : String} {c : Candidate} (hb : b ∈ conflicted (candidates s))
    (hc : c ∈ copiesOf (candidates s) b) (hkeeper : some c ≠ keeper fmt s b) : Refused fmt s c := by
  obtain ⟨hmem, rfl⟩ := mem_copiesOf.mp hc
  constructor
  · intro record hrecord
    by_contra haccepts
    have haccepts : accepts fmt s c record = true := by simpa using haccepts
    -- a copy that agrees is the first one on the day of the record
    have hday : c.day = record.day := by
      unfold accepts at haccepts
      split at haccepts
      · exact (agrees_true haccepts).1.2.2
      · cases haccepts
    cases hfind : (copiesOf (candidates s) c.batchId).find? (·.day = record.day) with
    | none => simpa [hday] using List.find?_eq_none.mp hfind c hc
    | some c' =>
        have hday' : c'.day = record.day := by simpa using List.find?_some hfind
        have hsame : c' = c := by
          have hb' := (mem_copiesOf.mp (List.mem_of_find?_eq_some hfind)).2
          cases c
          cases c'
          simp only at hday hday' hb'
          rw [hday', hb', hday]
        refine hkeeper ?_
        unfold keeper
        rw [hrecord, Option.bind_some, hfind, Option.filter_some, hsame, if_pos haccepts]
  · intro hsingle
    unfold single at hsingle
    have hle := of_decide_eq_true hsingle
    have hlt := (mem_conflicted.mp hb).2
    omega

/-- **One conflict.** -/
theorem told_resolveConflict {b : String} {done : List Candidate}
    (hb : b ∈ conflicted (candidates s)) (h : Classified fmt s done scan) :
    Told s (resolveConflict fmt s.ledger.records (candidates s) scan b) fun r =>
      r.1 = true ∧ Classified fmt s done r.2 ∧
        r.2.healthy = scan.healthy + tally (keeper fmt s b).isSome := by
  unfold resolveConflict
  refine told_seq told_findKeeper fun found hfound => ?_
  subst hfound
  generalize hscan' : (if (keeper fmt s b).isSome then
    { scan with healthy := scan.healthy + 1 } else scan) = scan'
  have hclassified : Classified fmt s done scan' ∧
      scan'.healthy = scan.healthy + tally (keeper fmt s b).isSome := by
    rw [← hscan']
    split
    · rename_i hsome
      rw [hsome]
      exact ⟨⟨h.quarantines, h.cleanups, h.retirements, h.registrations, h.apart⟩, rfl⟩
    · rename_i hnone
      rw [Bool.not_eq_true _ |>.mp hnone]
      exact ⟨h, rfl⟩
  refine told_seq (told_observes conflictDetail_only) fun detail _ => ?_
  unfold queueCopies
  refine told_seq (told_foldUntil (I := fun _ x => Classified fmt s done x ∧
    x.healthy = scan.healthy + tally (keeper fmt s b).isSome) ?_ hclassified)
    fun x hx => told_ret ⟨rfl, hx⟩
  intro before c after hcopies x hx
  have hc : c ∈ copiesOf (candidates s) b := by
    rw [hcopies]
    exact List.mem_append_right _ List.mem_cons_self
  split
  · exact told_ret ⟨rfl, hx⟩
  · rename_i hne
    have hrefused := refused_of_ne_keeper hb hc hne
    refine told_seq (told_queueQuarantine hx.1 (Or.inr ⟨c, rfl, hrefused⟩)) fun x' hx' => ?_
    exact told_ret ⟨rfl, hx'.1, hx'.2.1.trans hx.2⟩

end Phases

/-! ## The whole classification -/

section Whole

variable {fmt : SegmentFormat} {s : SpoolState} {scan : Scan fmt.Frame}

/-- What is absent from the tree is reported, and nothing else is decided. -/
theorem classifyAbsent_classified {ledger : List SegmentRecord}
    {retirements : List (String × Retirement)} {done : List Candidate}
    (h : Classified fmt s done scan) :
    Classified fmt s done (classifyAbsent fmt ledger retirements scan) ∧
      (classifyAbsent fmt ledger retirements scan).healthy = scan.healthy := by
  have hmissing : ∀ (missing : List SegmentRecord) (x : Scan fmt.Frame),
      Classified fmt s done x ∧ x.healthy = scan.healthy →
      Classified fmt s done (missing.foldl
        (fun scan r => scan.anomaly r.batchId (some r.day) "missing_file" "absent") x) ∧
      (missing.foldl (fun scan r => scan.anomaly r.batchId (some r.day) "missing_file" "absent")
        x).healthy = scan.healthy := by
    intro missing
    induction missing with
    | nil => exact fun x hx => hx
    | cons r rest ih => exact fun x hx => ih _ ⟨hx.1.anomaly _ _ _ _, hx.2⟩
  have hstale : ∀ (stale : List (String × Retirement)) (x : Scan fmt.Frame),
      Classified fmt s done x ∧ x.healthy = scan.healthy →
      Classified fmt s done (stale.foldl (fun scan t => scan.tombstone t.1 t.2.day) x) ∧
      (stale.foldl (fun scan t => scan.tombstone t.1 t.2.day) x).healthy = scan.healthy := by
    intro stale
    induction stale with
    | nil => exact fun x hx => hx
    | cons t rest ih => exact fun x hx => ih _ ⟨hx.1.tombstone _ _, hx.2⟩
  unfold classifyAbsent
  dsimp only
  exact hstale _ _ (hmissing _ _ ⟨h, rfl⟩)

/-- A sum of tallies is the length of a filter. -/
theorem length_filter_snoc {α : Type} (p : α → Bool) (xs : List α) (x : α) :
    ((xs ++ [x]).filter p).length = (xs.filter p).length + tally (p x) := by
  rw [List.filter_append, List.length_append]
  cases hp : p x <;> simp [hp, tally]

/-- **What classification decides** about the tree it looks at. -/
theorem classify_told {retirements : List (String × Retirement)} :
    Told s (classify fmt s.ledger.records retirements s.leaves) fun scan =>
      Classified fmt s (candidates s) scan ∧ scan.healthy = (healthyIds fmt s).length := by
  unfold classify
  refine told_seq (told_foldUntil (I := fun before x => Classified fmt s [] x ∧ x.healthy = 0 ∧
    x.candidates = before.filterMap candidateOf) ?_ ⟨⟨nofun, nofun, nofun, nofun, nofun⟩, rfl, rfl⟩)
    fun inventoried hinventoried => ?_
  · intro before leaf after _ x hx
    refine told_mono (told_inventoryLeaf hx.1 hx.2.2) ?_
    exact fun r hr => ⟨hr.1, hr.2.1, hr.2.2.1.trans hx.2.1, hr.2.2.2⟩
  obtain ⟨hclassified, hzero, hcandidates⟩ := hinventoried
  have hcandidates : inventoried.candidates = candidates s := hcandidates
  dsimp only
  rw [hcandidates]
  refine told_seq (told_foldUntil (I := fun before x => Classified fmt s before x ∧
    x.healthy = (before.filter (counts fmt s)).length) ?_ ⟨hclassified, hzero⟩)
    fun routed hrouted => ?_
  · intro before c after hcs x hx
    refine told_mono (told_routeCandidate hcs hx.1) fun r hr => ⟨hr.1, hr.2.1, ?_⟩
    rw [hr.2.2, hx.2, length_filter_snoc]
  refine told_seq (told_foldUntil (I := fun before x => Classified fmt s (candidates s) x ∧
    x.healthy = ((candidates s).filter (counts fmt s)).length +
      (before.filter fun b => (keeper fmt s b).isSome).length) ?_ hrouted)
    fun resolved hresolved => ?_
  · intro before b after hbs x hx
    have hb : b ∈ conflicted (candidates s) := by
      rw [hbs]
      exact List.mem_append_right _ List.mem_cons_self
    refine told_mono (told_resolveConflict hb hx.1) fun r hr => ⟨hr.1, hr.2.1, ?_⟩
    rw [hr.2.2, hx.2, length_filter_snoc, Nat.add_assoc]
  obtain ⟨habsent, hhealthy⟩ :=
    @classifyAbsent_classified fmt s resolved s.ledger.records retirements _ hresolved.1
  refine told_ret ⟨habsent, ?_⟩
  unfold healthyIds
  rw [hhealthy, hresolved.2, List.length_append, List.length_map]

end Whole

/-! ## The healthy segments -/

section Counted

variable {fmt : SegmentFormat} {s : SpoolState} {c : Candidate} {record : SegmentRecord}

/-- A file that agrees with a record is on the record's day, under its name. -/
theorem accepts_true (h : accepts fmt s c record = true) :
    c = named record ∧ matchesBatchId c.batchId = true ∧
      (s.file c.path).isSome := by
  unfold accepts at h
  split at h
  · rename_i parsed hread
    obtain ⟨⟨hheader, hbatch, hday⟩, -⟩ := agrees_true h
    refine ⟨?_, hheader ▸ parsed.header.matchesBatchId, ?_⟩
    · cases c
      simp only at hbatch hday
      rw [hbatch, hday]
      rfl
    · unfold Retention.trustedSegment SpoolState.stat at hread
      cases hfile : s.file c.path with
      | none => rw [hfile] at hread; cases hread
      | some f => rfl
  · cases h

/-- **What a pass counts** is the records whose file agrees with them, whichever way it comes by
the file. -/
theorem mem_healthyIds {b : String} : b ∈ healthyIds fmt s ↔
    ∃ record, recordFor s b = some record ∧ accepts fmt s (named record) record = true := by
  unfold healthyIds
  rw [List.mem_append, List.mem_map]
  constructor
  -- A healthy id is that of a single candidate that counts or of a conflict with a keeper, and
  -- both are accepted.
  · rintro (⟨c, hc, rfl⟩ | hb)
    · obtain ⟨-, hcounts⟩ := List.mem_filter.mp hc
      unfold counts at hcounts
      rw [Bool.and_eq_true, Option.any_eq_true] at hcounts
      obtain ⟨-, record, hrecord, haccepts⟩ := hcounts
      refine ⟨record, hrecord, ?_⟩
      rw [← (accepts_true haccepts).1]
      exact haccepts
    · obtain ⟨-, hkeeper⟩ := List.mem_filter.mp hb
      unfold keeper at hkeeper
      cases hrecord : recordFor s b with
      | none => rw [hrecord] at hkeeper; cases hkeeper
      | some record =>
          rw [hrecord, Option.bind_some] at hkeeper
          obtain ⟨c, hc⟩ := Option.isSome_iff_exists.mp hkeeper
          have haccepts : accepts fmt s c record = true := (Option.filter_eq_some_iff.mp hc).2
          refine ⟨record, rfl, ?_⟩
          rw [← (accepts_true haccepts).1]
          exact haccepts
  · rintro ⟨record, hrecord, haccepts⟩
    obtain ⟨-, hid, hfile⟩ := accepts_true haccepts
    obtain ⟨-, rfl⟩ := recordFor_eq_some hrecord
    have hc : named record ∈ candidates s := mem_candidates.mpr ⟨hid, hfile⟩
    -- The accepted file is a candidate; if it is not the only one, it is the keeper.
    cases hsingle : single s (named record) with
    | true =>
        refine Or.inl ⟨named record, List.mem_filter.mpr ⟨hc, ?_⟩, rfl⟩
        have hrecord' : recordFor s (named record).batchId = some record := hrecord
        unfold counts
        rw [hsingle, hrecord', Option.any_some, haccepts]
        rfl
    | false =>
        have hcopies : 1 < (copiesOf (candidates s) record.batchId).length :=
          Nat.not_le.mp (of_decide_eq_false hsingle)
        refine Or.inr (List.mem_filter.mpr ⟨mem_conflicted.mpr ⟨?_, hcopies⟩, ?_⟩)
        · exact ⟨named record, hc, rfl⟩
        -- Every copy but the keeper is refused, so the accepted one cannot be another.
        · by_contra hkeeper
          have hb : record.batchId ∈ conflicted (candidates s) :=
            mem_conflicted.mpr ⟨⟨named record, hc, rfl⟩, hcopies⟩
          have hne : some (named record) ≠ keeper fmt s record.batchId := by
            intro heq
            rw [← heq] at hkeeper
            exact hkeeper rfl
          have hrefused := (refused_of_ne_keeper hb (mem_copiesOf.mpr ⟨hc, rfl⟩) hne).record
            record hrecord
          rw [haccepts] at hrefused
          cases hrefused

/-- No segment is counted twice. -/
theorem nodup_healthyIds : (healthyIds fmt s).Nodup := by
  unfold healthyIds
  refine List.nodup_append.mpr ⟨?_, ?_, ?_⟩
  · refine List.Nodup.map_on ?_ (nodup_candidates.filter _)
    intro c hc c' hc' hb
    obtain ⟨hmem, hcounts⟩ := List.mem_filter.mp hc
    unfold counts at hcounts
    rw [Bool.and_eq_true] at hcounts
    exact (single_unique hcounts.1 hmem (List.mem_filter.mp hc').1 hb.symm).symm
  · exact ((List.perm_insertionSort _ _).nodup_iff.mpr ((List.nodup_dedup _).filter _)).filter _
  · rintro b hb b' hb' rfl
    obtain ⟨c, hc, rfl⟩ := List.mem_map.mp hb
    have hcounts := (List.mem_filter.mp hc).2
    unfold counts at hcounts
    rw [Bool.and_eq_true] at hcounts
    have hle := of_decide_eq_true hcounts.1
    have hlt := (mem_conflicted.mp (List.mem_filter.mp hb').1).2
    omega

end Counted

end Milhouse.Verify
