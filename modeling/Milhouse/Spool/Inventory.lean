import Milhouse.Spool.Operations

/-!
# Milhouse — the bounded inventory and the mutation gate of a pass

`scanRun` is `_Scan.run` with every bound and every directory check of its inventory: the completeness
flag, the day and scan limits, and the anomaly cap, which is looked at before each item of each phase
and once more before the first mutation. (`reconcilePass` is the same pass with the inventory as one
operation, for a pass that nothing cuts short.) The directory operations are an interface of their
own, whose responses the environment chooses; `InventoryOp.act` is the writer action.

* **`scanRun_gate`** — nothing but a complete and uncapped classification reaches a mutation;
* **`incomplete_pass_mutates_nothing`** — the gate, for a pass that is run to its report.
-/

namespace Milhouse

open Interaction Interaction.Prog

/-! ## The operations of the inventory -/

inductive PendingStat | present | absent | failed
  deriving DecidableEq, Repr

inductive InventoryOp
  /-- `_require_bound_state_root`. -/
  | bound
  /-- Enter the barrier context, `exclusive_then_shared` for a writer. -/
  | enter (writer : Bool)
  /-- `_ledger_index`: the valid rows, and the batch ids of the others. -/
  | ledgerIndex
  /-- `_open_existing_chain(())`. -/
  | openRoot
  /-- `os.stat(_PENDING, dir_fd=root_fd, follow_symlinks=False)`. -/
  | statPending
  /-- `_descriptors_match` and `_binding_holds` of the root. -/
  | rootHolds
  /-- `_open_or_repair_private_dir_at(root_fd, _PENDING)`. -/
  | openPending
  /-- `_descriptors_match` of the root and `pending`. -/
  | pendingMatches
  /-- `_secure_names_from_descriptor(pending_fd)`: a problem, or the names, each a day or not. -/
  | listPending
  /-- Open and list one day directory. -/
  | openDay (day : Day)
  /-- Close its descriptor. -/
  | closeDay (day : Day)
  /-- `_descriptors_match` and `_binding_holds` of `pending`. -/
  | pendingHolds
  /-- `observe(report)`. -/
  | observe
  /-- The transition of the writer barrier to the shared side. -/
  | transition
  /-- `action()`. -/
  | act

def InventoryOp.Resp : InventoryOp → Type
  | .ledgerIndex => Option (List SegmentRecord × List String)
  | .statPending => PendingStat
  | .listPending => Except String (List (Option Day))
  | .openDay _ => Except String (List String)
  | .observe | .act => Unit
  | _ => Bool

def inventorySignature : Signature := ⟨InventoryOp, InventoryOp.Resp⟩

abbrev ScanProg := Prog (spoolSignature.sum inventorySignature)

/-- One operation of the inventory. -/
def look (o : InventoryOp) : ScanProg o.Resp := .callRight (Δ := inventorySignature) o

/-! ## Bounds -/

def maxDays : Nat := 100000
def maxTotal : Nat := 1000000

/-- `_capped`: more anomalies than the cap were found. -/
def Scan.capped {Frame : Type} (scan : Scan Frame) : Bool := maxAnomalies < scan.anomalies.length

/-- `_anomalies`: those up to the cap, and one that says it fired. -/
def Scan.reported {Frame : Type} (scan : Scan Frame) : List SegmentAnomaly :=
  if scan.capped then scan.anomalies.take maxAnomalies ++ [⟨"", none, "limit", "anomaly_limit"⟩]
  else scan.anomalies

/-- What an inventory has found: `_complete` and `_scanned` besides the scan. -/
structure Inventory (Frame : Type) where
  scan : Scan Frame
  complete : Bool
  scanned : Nat

namespace Inventory

variable {Frame : Type}

/-- An anomaly that cuts the inventory short. -/
def stop (inv : Inventory Frame) (day : Option Day) (kind detail : String) : Inventory Frame :=
  { inv with scan := inv.scan.anomaly "" day kind detail, complete := false }

def cut (inv : Inventory Frame) : Inventory Frame := { inv with complete := false }

end Inventory

section Pass

variable (fmt : SegmentFormat)

/-! ## The inventory -/

/-- One name of a day directory. The first component of the accumulator says whether the inventory
goes on after this day. -/
def inventoryName (day : Day) (state : Bool × Inventory fmt.Frame) (name : String) :
    ScanProg (Bool × Bool × Inventory fmt.Frame) :=
  let inv := state.2
  if inv.scan.capped then .ret (false, false, inv.cut)
  else if maxTotal ≤ inv.scanned then .ret (false, false, inv.stop none "limit" "scan_limit")
  else (inventoryLeaf fmt inv.scan (day, name)).inl >>= fun r =>
    .ret (true, true, { inv with scan := r.2, scanned := inv.scanned + 1 })

/-- `_inventory_day`. -/
def inventoryDay (day : Day) (inv : Inventory fmt.Frame) :
    ScanProg (Bool × Inventory fmt.Frame) :=
  look (.openDay day) >>= fun
  | .error problem => look (.closeDay day) >>= fun _ =>
      .ret (true, inv.stop (some day) "foreign_name" s!"day_{problem}")
  | .ok names => foldUntil names (true, inv) (inventoryName fmt day) >>= fun state =>
      look (.closeDay day) >>= fun (closed : Bool) =>
        .ret (state.1, if closed then state.2 else state.2.cut)

/-- One name of `pending`. -/
def inventoryEntry (state : Bool × Inventory fmt.Frame) (entry : Option Day) :
    ScanProg (Bool × Bool × Inventory fmt.Frame) :=
  let inv := state.2
  if inv.scan.capped then .ret (false, false, inv.cut)
  else match entry with
    | none => .ret (true, true, { inv with scan := inv.scan.anomaly "" none "foreign_name" "day" })
    | some day => inventoryDay fmt day inv >>= fun state =>
        if !state.1 then .ret (false, false, state.2)
        else look .pendingHolds >>= fun (holds : Bool) =>
          if holds then .ret (true, true, state.2)
          else .ret (false, false, state.2.stop none "foreign_name" "pending_changed")

/-- `_inventory` of a `pending` directory that is there. -/
def inventoryPending (inv : Inventory fmt.Frame) : ScanProg (Inventory fmt.Frame) :=
  look .openPending >>= fun (opened : Bool) =>
  if !opened then .ret (inv.stop none "foreign_name" "pending_unsafe")
  else look .pendingMatches >>= fun (same : Bool) =>
  if !same then .ret (inv.stop none "foreign_name" "pending_changed")
  else look .listPending >>= fun
  | .error problem => .ret (inv.stop none "foreign_name" s!"pending_{problem}")
  | .ok days =>
      if maxDays < days.length then .ret (inv.stop none "limit" "day_limit")
      else foldUntil days (true, inv) (inventoryEntry fmt) >>= fun state =>
        if !state.1 then .ret state.2
        else look .pendingHolds >>= fun (holds : Bool) =>
          if !holds then .ret (state.2.stop none "foreign_name" "pending_changed")
          else .ret (if state.2.scan.capped then state.2.cut else state.2)

/-- `_inventory`. -/
def inventory (inv : Inventory fmt.Frame) : ScanProg (Inventory fmt.Frame) :=
  look .openRoot >>= fun (opened : Bool) =>
  if !opened then .ret (inv.stop none "foreign_name" "spool_root_unsafe")
  else look .statPending >>= fun
  | .failed => .ret (inv.stop none "foreign_name" "pending_unsafe")
  | .absent => look .rootHolds >>= fun (holds : Bool) =>
      if holds then .ret inv else .ret (inv.stop none "foreign_name" "spool_root_changed")
  | .present => inventoryPending fmt inv

/-! ## The phases after it -/

/-- One candidate: a duplicate, a batch of an unreadable row, or one to route. -/
def classifyCandidate (ledger : List SegmentRecord) (malformed : List String)
    (retirements : List (String × Retirement)) (candidates : List Candidate)
    (scan : Scan fmt.Frame) (c : Candidate) : SpoolProg (Bool × Scan fmt.Frame) :=
  if scan.capped then .ret (false, scan)
  else if (copiesOf candidates c.batchId).length ≤ 1 ∧ c.batchId ∈ malformed then .ret (true, scan)
  else routeCandidate fmt ledger retirements candidates scan c

/-- One conflicted batch id. -/
def classifyConflict (ledger : List SegmentRecord) (candidates : List Candidate)
    (scan : Scan fmt.Frame) (batchId : String) : SpoolProg (Bool × Scan fmt.Frame) :=
  if scan.capped then .ret (false, scan) else resolveConflict fmt ledger candidates scan batchId

variable {fmt} in
/-- Ledger rows without a file. -/
def missingFiles (candidates : List Candidate) : List SegmentRecord → Scan fmt.Frame →
    Scan fmt.Frame
  | [], scan => scan
  | r :: rest, scan =>
      if scan.capped then scan
      else if candidates.any (·.batchId = r.batchId) then missingFiles candidates rest scan
      else missingFiles candidates rest (scan.anomaly r.batchId (some r.day) "missing_file" "absent")

variable {fmt} in
/-- Tombstones whose file is gone, or whose id was reused. -/
def staleTombstones (ledger : List SegmentRecord) (candidates : List Candidate) :
    List (String × Retirement) → Scan fmt.Frame → Scan fmt.Frame
  | [], scan => scan
  | t :: rest, scan =>
      if scan.capped then scan
      else if !candidates.any (·.batchId = t.1) ∨ (recordOf ledger t.1).isSome then
        staleTombstones ledger candidates rest (scan.tombstone t.1 t.2.day)
      else staleTombstones ledger candidates rest scan

/-- The classification of a complete inventory. -/
def classifyInventory (ledger : List SegmentRecord) (malformed : List String)
    (retirements : List (String × Retirement)) (scan : Scan fmt.Frame) :
    SpoolProg (Scan fmt.Frame) :=
  let candidates := scan.candidates
  foldUntil candidates scan (classifyCandidate fmt ledger malformed retirements candidates) >>=
    fun scan => foldUntil (conflicted candidates) scan (classifyConflict fmt ledger candidates) >>=
      fun scan => .ret
        (staleTombstones ledger candidates retirements (missingFiles candidates ledger scan))

/-! ## The pass -/

def barrierNotBound : SpoolError :=
  ⟨"MH_SPOOL_BARRIER", "reconciliation requires this control plane's bound commit barrier"⟩

/-- `_safe_id`. -/
def safeId (batchId : String) : String := if matchesBatchId batchId then batchId else ""

/-- The rows that could not be read. -/
def malformedRows (malformed : List String) : Scan fmt.Frame :=
  malformed.foldl
    (fun scan b => scan.anomaly (safeId b) none "corrupt_ledger" "unreadable_row") .empty

/-- Report, and hand over to the writer. -/
def finishPass (writer : Bool) (report : ReconciliationReport) :
    ScanProg (Except SpoolError ReconciliationReport) :=
  look .observe >>= fun _ =>
  if writer && report.complete && report.recoverySafe then
    look .transition >>= fun (shared : Bool) =>
      if !shared then .ret (.error barrierNotAcquired)
      else look .act >>= fun _ => .ret (.ok report)
  else .ret (.ok report)

/-- The mutations of a complete classification, and the report. -/
def mutate (writer : Bool) (scan : Scan fmt.Frame) :
    ScanProg (Except SpoolError ReconciliationReport) :=
  (cleanStaging scan.cleanups).inl >>= fun
  | some day => finishPass writer
      ⟨[], [], scan.reported ++ [⟨"", some day, "quarantine_uncertain", "io"⟩], 0, true, false⟩
  | none => (applyScan fmt scan).inl >>= fun
    | .error e => .ret (.error e)
    | .ok report => finishPass writer report

/-- **`_Scan.run`.** -/
def scanRun (writer : Bool) : ScanProg (Except SpoolError ReconciliationReport) :=
  look .bound >>= fun (bound : Bool) =>
  if !bound then .ret (.error barrierNotBound)
  else look (.enter writer) >>= fun (entered : Bool) =>
  if !entered then .ret (.error barrierNotAcquired)
  else look .ledgerIndex >>= fun
  | none => .ret (.error ledgerUnreadable)
  | some (ledger, malformed) =>
      (call (Γ := spoolSignature) .readRetirements).inl >>= fun
        (retirements : Option (List (String × Retirement))) =>
      match retirements with
      | none => .ret (.error tombstonesUnreadable)
      | some retirements =>
          inventory fmt ⟨malformedRows fmt malformed, true, 0⟩ >>= fun inv =>
          (if inv.complete then (classifyInventory fmt ledger malformed retirements inv.scan).inl
            else .ret inv.scan) >>= fun scan =>
          if inv.complete && !scan.capped then mutate fmt writer scan
          else finishPass writer ⟨[], [], scan.reported, 0, false, true⟩

end Pass

/-! ## What the environment shows -/

/-- What a directory operation shows. -/
inductive Shown
  | flag (b : Bool)
  | stat (p : PendingStat)
  | listed (days : Except String (List (Option Day)))
  | named (names : Except String (List String))
  | rows (index : Option (List SegmentRecord × List String))

/-- The inventory acts on nothing; the writer action is remembered. -/
def inventoryPerform (acted : Bool) : (o : InventoryOp) → Shown → Option (o.Resp × Bool)
  | .ledgerIndex, .rows index => some (index, acted)
  | .statPending, .stat p => some (p, acted)
  | .listPending, .listed days => some (days, acted)
  | .openDay _, .named names => some (names, acted)
  | .observe, _ => some ((), acted)
  | .act, _ => some ((), true)
  | .bound, .flag b | .enter _, .flag b | .openRoot, .flag b | .rootHolds, .flag b
  | .openPending, .flag b | .pendingMatches, .flag b | .closeDay _, .flag b
  | .pendingHolds, .flag b | .transition, .flag b => some (b, acted)
  | _, _ => none

def inventoryHandler : Handler inventorySignature Bool Shown := ⟨inventoryPerform⟩

def scanHandler : Handler (spoolSignature.sum inventorySignature) (SpoolState × Bool)
    (Choice ⊕ Shown) := spoolHandler.sum inventoryHandler

/-! ## What a pass does before its gate -/

/-- The writer action. -/
def InventoryOp.acts : InventoryOp → Bool
  | .act => true
  | _ => false

/-- An operation before the gate. -/
def Quiet : (spoolSignature.sum inventorySignature).Op → Prop
  | .inl o => SpoolOp.observes o
  | .inr o => InventoryOp.acts o = false

/-- The directories and the tables are those of `s`, and the writer did not act. -/
def Untouched (s : SpoolState) (t : SpoolState × Bool) : Prop :=
  t.1.dirs = s.dirs ∧ t.1.ledger = s.ledger ∧ t.2 = false

/-- An inventory operation that does not act leaves the mark of a mutation unset. -/
theorem inventoryPerform_acted {acted acted' : Bool} {o : InventoryOp} {c : Shown} {r : o.Resp}
    (ho : o.acts = false) (h : inventoryPerform acted o c = some (r, acted')) : acted' = acted := by
  cases o with
  | act => cases ho
  | observe => exact (Prod.mk.inj (Option.some.inj h)).2.symm
  | _ =>
      cases c <;> first
        | exact (Prod.mk.inj (Option.some.inj h)).2.symm
        | cases h

/-- A quiet operation leaves every directory and the mark as they were. -/
theorem Untouched.step {s : SpoolState} {t t' : SpoolState × Bool}
    {o : (spoolSignature.sum inventorySignature).Op} {c : Choice ⊕ Shown}
    {r : (spoolSignature.sum inventorySignature).Resp o} (h : Untouched s t) (ho : Quiet o)
    (hstep : scanHandler.perform t o c = some (r, t')) : Untouched s t' := by
  obtain ⟨hdirs, hledger, hacted⟩ := h
  cases o with
  | inl o =>
      cases c with
      | inr c => cases hstep
      | inl c =>
          obtain ⟨⟨r', s'⟩, hperform, heq⟩ := Option.map_eq_some_iff.mp hstep
          obtain ⟨-, rfl⟩ := Prod.mk.inj heq
          obtain ⟨hdirs', hledger'⟩ := SpoolState.perform_observes ho hperform
          exact ⟨hdirs'.trans hdirs, hledger'.trans hledger, hacted⟩
  | inr o =>
      cases c with
      | inl c => cases hstep
      | inr c =>
          obtain ⟨⟨r', acted'⟩, hperform, heq⟩ := Option.map_eq_some_iff.mp hstep
          obtain ⟨-, rfl⟩ := Prod.mk.inj heq
          exact ⟨hdirs, hledger, (inventoryPerform_acted ho hperform).trans hacted⟩

section Only

variable {fmt : SegmentFormat} {inv : Inventory fmt.Frame} {α : Type}

/-- A program that starts with a look is quiet if what comes after it is, whatever the look answers.
-/
theorem look_only {o : InventoryOp} (ho : o.acts = false) {f : o.Resp → ScanProg α}
    (hf : ∀ r, (f r).Only Quiet) : (look o >>= f).Only Quiet := ⟨ho, hf⟩

theorem inventoryName_only {day : Day} {state : Bool × Inventory fmt.Frame} {name : String} :
    (inventoryName fmt day state name).Only Quiet := by
  unfold inventoryName
  dsimp only
  split
  · trivial
  · split
    · trivial
    · exact Only.bind (Only.inl inventoryLeaf_only) fun r => trivial

/-- Walking one day directory acts on nothing. -/
theorem inventoryDay_only {day : Day} : (inventoryDay fmt day inv).Only Quiet := by
  unfold inventoryDay
  refine look_only rfl fun r => ?_
  rcases r with problem | names
  · exact look_only rfl fun _ => trivial
  · exact Only.bind (Only.foldUntil fun _ _ _ => inventoryName_only) fun state =>
      look_only rfl fun _ => trivial

theorem inventoryEntry_only {state : Bool × Inventory fmt.Frame} {entry : Option Day} :
    (inventoryEntry fmt state entry).Only Quiet := by
  unfold inventoryEntry
  dsimp only
  split
  · trivial
  · cases entry with
    | none => trivial
    | some day =>
        refine Only.bind inventoryDay_only fun state => ?_
        split
        · trivial
        · refine look_only rfl fun holds => ?_
          cases holds <;> trivial

/-- The whole inventory is quiet: it looks at names and inodes and mutates nothing. -/
theorem inventory_only : (inventory fmt inv).Only Quiet := by
  unfold inventory
  refine look_only rfl fun opened => ?_
  cases opened with
  | false => trivial
  | true =>
      refine look_only rfl fun stat => ?_
      cases stat with
      | failed => trivial
      | absent =>
          refine look_only rfl fun holds => ?_
          cases holds <;> trivial
      | present =>
          unfold inventoryPending
          refine look_only rfl fun opened => ?_
          cases opened with
          | false => trivial
          | true =>
              refine look_only rfl fun same => ?_
              cases same with
              | false => trivial
              | true =>
                  refine look_only rfl fun listed => ?_
                  rcases listed with problem | days
                  · trivial
                  · dsimp only [Bool.not_true, Bool.false_eq_true, if_false]
                    split
                    · trivial
                    · refine Only.bind (Only.foldUntil fun _ _ _ => inventoryEntry_only)
                        fun state => ?_
                      split
                      · trivial
                      · refine look_only rfl fun holds => ?_
                        cases holds <;> trivial

/-- Classification after the inventory only observes. -/
theorem classifyInventory_only {ledger : List SegmentRecord} {malformed : List String}
    {retirements : List (String × Retirement)} {scan : Scan fmt.Frame} :
    (classifyInventory fmt ledger malformed retirements scan).Only SpoolOp.observes := by
  unfold classifyInventory
  refine Only.bind (Only.foldUntil fun c _ scan => ?_) fun scan =>
    Only.bind (Only.foldUntil fun b _ scan => ?_) fun scan => trivial
  · unfold classifyCandidate
    split
    · trivial
    · split
      · trivial
      · exact routeCandidate_only
  · unfold classifyConflict
    split
    · trivial
    · exact resolveConflict_only

end Only

/-! ## Which anomalies say that a bound was reached -/

/-- No anomaly of the scan speaks of a bound. -/
def Scan.Unbounded {Frame : Type} (scan : Scan Frame) : Prop :=
  ∀ a ∈ scan.anomalies, a.kind ≠ "limit"

section Bounds

variable {fmt : SegmentFormat} {scan : Scan fmt.Frame} {inv : Inventory fmt.Frame}
  {c : Candidate} {b detail : String} {r : SegmentRecord} {ledger : List SegmentRecord}
  {retirements : List (String × Retirement)} {candidates : List Candidate}

/-- An anomaly of another kind than `limit` is not the sign of an exhausted bound. -/
theorem Scan.Unbounded.anomaly {Frame : Type} {scan : Scan Frame} (h : scan.Unbounded)
    {batchId : String} {day : Option Day} {kind detail : String} (hkind : kind ≠ "limit") :
    (scan.anomaly batchId day kind detail).Unbounded := by
  intro a ha
  rcases List.mem_append.mp ha with ha | ha
  · exact h a ha
  · rw [List.mem_singleton.mp ha]
    exact hkind

/-- Queueing a leaf for quarantine reports no bound. -/
theorem queueQuarantine_unbounded {day : Day} {name : String} (h : scan.Unbounded) :
    (queueQuarantine fmt scan day name b detail).Yields Scan.Unbounded := by
  unfold queueQuarantine
  refine Yields.bind Yields.true fun found _ => ?_
  cases found with
  | none => exact h.anomaly (by decide)
  | some found => exact h

/-- Reading one more leaf reports none either. -/
theorem inventoryLeaf_unbounded {leaf : Day × String} (h : scan.Unbounded) :
    (inventoryLeaf fmt scan leaf).Yields fun r => Scan.Unbounded r.2 := by
  unfold inventoryLeaf
  dsimp only
  split
  · refine .of_call fun r => ?_
    rcases r with e | f
    · exact (queueQuarantine_unbounded (h.anomaly (by decide))).bind fun _ h' => h'
    · dsimp only
      split
      · exact h.anomaly (by decide)
      · exact (queueQuarantine_unbounded (h.anomaly (by decide))).bind fun _ h' => h'
  · split
    · exact h.anomaly (by decide)
    · exact h

theorem verifyCommitted_unbounded (h : scan.Unbounded) :
    (verifyCommitted fmt scan c r).Yields Scan.Unbounded := by
  unfold verifyCommitted
  refine Yields.bind Yields.true fun x _ => ?_
  cases x with
  | error code =>
      dsimp only
      split
      · exact h.anomaly (by decide)
      · exact queueQuarantine_unbounded (h.anomaly (by decide))
  | ok parsed =>
      dsimp only
      split
      · exact h
      · exact queueQuarantine_unbounded (h.anomaly (by decide))

theorem reconcileOrphan_unbounded (h : scan.Unbounded) :
    (reconcileOrphan fmt scan c).Yields Scan.Unbounded := by
  unfold reconcileOrphan
  refine Yields.bind Yields.true fun x _ => ?_
  cases x with
  | error code =>
      dsimp only
      split
      · exact h.anomaly (by decide)
      · exact queueQuarantine_unbounded (h.anomaly (by decide))
  | ok parsed =>
      dsimp only
      split
      · exact h.anomaly (by decide)
      · split
        · exact queueQuarantine_unbounded (h.anomaly (by decide))
        · exact h

/-- Whichever way a candidate is routed, no bound is reported. -/
theorem routeCandidate_unbounded (h : scan.Unbounded) :
    (routeCandidate fmt ledger retirements candidates scan c).Yields
      fun r => Scan.Unbounded r.2 := by
  unfold routeCandidate
  split
  · exact h.anomaly (by decide)
  · split
    · exact (verifyCommitted_unbounded h).bind fun _ h' => h'
    · split
      · exact (reconcileOrphan_unbounded h).bind fun _ h' => h'
      · refine Yields.bind Yields.true fun digest _ => ?_
        split
        · exact h
        · have htombstone : (scan.tombstone c.batchId c.day).Unbounded := h
          exact (reconcileOrphan_unbounded htombstone).bind fun _ h' => h'

/-- So does the resolution of a conflict, over all of its copies. -/
theorem resolveConflict_unbounded (h : scan.Unbounded) :
    (resolveConflict fmt ledger candidates scan b).Yields fun r => Scan.Unbounded r.2 := by
  unfold resolveConflict queueCopies
  refine Yields.bind Yields.true fun keeper _ => Yields.bind Yields.true fun detail _ => ?_
  refine Yields.bind (ψ := fun r : Bool × Scan fmt.Frame => Scan.Unbounded r.2)
    (Yields.foldUntil (I := Scan.Unbounded) ?_ fun c _ scan' h' => ?_) fun _ h' => h'
  · split <;> exact h
  · split
    · exact h'
    · exact (queueQuarantine_unbounded h').bind fun _ h'' => h''

/-- And so does the report of the rows whose file is missing. -/
theorem missingFiles_unbounded (h : scan.Unbounded) (rows : List SegmentRecord) :
    (missingFiles candidates rows scan).Unbounded := by
  induction rows generalizing scan with
  | nil => exact h
  | cons r rest ih =>
      unfold missingFiles
      split
      · exact h
      · split
        · exact ih h
        · exact ih (h.anomaly (by decide))

theorem staleTombstones_unbounded (h : scan.Unbounded) (rows : List (String × Retirement)) :
    (staleTombstones ledger candidates rows scan).Unbounded := by
  induction rows generalizing scan with
  | nil => exact h
  | cons t rest ih =>
      have htombstone : (scan.tombstone t.1 t.2.day).Unbounded := h
      unfold staleTombstones
      split
      · exact h
      · split
        · exact ih htombstone
        · exact ih h

/-- Classification never reports a bound: that is left to the inventory and the cap. -/
theorem classifyInventory_unbounded {malformed : List String} (h : scan.Unbounded) :
    (classifyInventory fmt ledger malformed retirements scan).Yields Scan.Unbounded := by
  unfold classifyInventory
  refine Yields.bind (Yields.foldUntil h fun c _ scan h => ?_) fun scan₁ h₁ =>
    Yields.bind (Yields.foldUntil h₁ fun b _ scan h => ?_) fun scan₂ h₂ =>
      staleTombstones_unbounded (missingFiles_unbounded h₂ _) _
  · unfold classifyCandidate
    split
    · exact h
    · split
      · exact h
      · exact routeCandidate_unbounded h
  · unfold classifyConflict
    split
    · exact h
    · exact resolveConflict_unbounded h

/-- **A bound that the inventory reached makes it incomplete.** -/
def Inventory.Honest {Frame : Type} (inv : Inventory Frame) : Prop :=
  inv.complete = true → inv.scan.Unbounded

/-- Taking in one name keeps the inventory honest: where it meets a bound it gives up completeness. -/
theorem inventoryName_honest {day : Day} {state : Bool × Inventory fmt.Frame} {name : String}
    (h : state.2.Honest) : (inventoryName fmt day state name).Yields fun r => r.2.2.Honest := by
  unfold inventoryName
  dsimp only
  split
  · exact nofun
  · split
    · exact nofun
    · by_cases hcomplete : state.2.complete = true
      · have hleaf : (inventoryLeaf fmt state.2.scan (day, name)).Yields
            fun r => Scan.Unbounded r.2 := inventoryLeaf_unbounded (h hcomplete)
        exact Yields.bind hleaf.inl fun r hr _ => hr
      · exact Yields.bind Yields.true fun r _ hr => absurd hr hcomplete

/-- A day that exhausts a bound marks the inventory incomplete. -/
theorem inventoryDay_honest {day : Day} (h : inv.Honest) :
    (inventoryDay fmt day inv).Yields fun r => r.2.Honest := by
  unfold inventoryDay
  intro r
  rcases r with problem | names
  · exact fun _ => nofun
  · show (foldUntil names (true, inv) (inventoryName fmt day) >>= _).Yields _
    refine Yields.bind (Yields.foldUntil (I := fun state => state.2.Honest) h
      fun name _ state hstate => inventoryName_honest hstate) fun state hstate closed => ?_
    cases closed with
    | true => exact hstate
    | false => exact nofun

/-- So does taking in one day entry. -/
theorem inventoryEntry_honest {state : Bool × Inventory fmt.Frame} {entry : Option Day}
    (h : state.2.Honest) : (inventoryEntry fmt state entry).Yields fun r => r.2.2.Honest := by
  unfold inventoryEntry
  dsimp only
  split
  · exact nofun
  · cases entry with
    | none => exact fun hcomplete => (h hcomplete).anomaly (by decide)
    | some day =>
        refine Yields.bind (inventoryDay_honest h) fun state' hstate' => ?_
        split
        · exact hstate'
        · intro holds
          cases holds with
          | true => exact hstate'
          | false => exact nofun

/-- An inventory that is complete exhausted no bound. -/
theorem inventory_honest (h : inv.Honest) : (inventory fmt inv).Yields Inventory.Honest := by
  unfold inventory
  intro opened
  cases opened with
  | false => exact nofun
  | true =>
      intro stat
      cases stat with
      | failed => exact nofun
      | absent =>
          intro holds
          cases holds with
          | true => exact h
          | false => exact nofun
      | present =>
          intro opened
          cases opened with
          | false => exact nofun
          | true =>
              intro same
              cases same with
              | false => exact nofun
              | true =>
                  intro listed
                  rcases listed with problem | days
                  · exact nofun
                  · show (if maxDays < days.length then _ else _ : ScanProg _).Yields _
                    split
                    · exact nofun
                    -- The days are walked one after another, and each of them keeps the inventory
                    -- honest.
                    · refine Yields.bind (Yields.foldUntil (I := fun state => state.2.Honest) h
                        fun entry _ state hstate => inventoryEntry_honest hstate)
                        fun state hstate => ?_
                      split
                      · exact hstate
                      · intro holds
                        cases holds with
                        | false => exact nofun
                        | true =>
                            show (if state.2.scan.capped then state.2.cut else state.2).Honest
                            split
                            · exact nofun
                            · exact hstate

/-- Anomalies of unreadable rows are no sign of an exhausted bound. -/
theorem malformedRows_unbounded {malformed : List String} :
    (malformedRows fmt malformed).Unbounded := by
  have hfold : ∀ (ids : List String) (scan : Scan fmt.Frame), scan.Unbounded →
      (ids.foldl (fun scan b =>
        scan.anomaly (safeId b) none "corrupt_ledger" "unreadable_row") scan).Unbounded := by
    intro ids
    induction ids with
    | nil => exact fun scan h => h
    | cons b ids ih => exact fun scan h => ih _ (h.anomaly (by decide))
  exact hfold malformed .empty nofun

/-- The failures of the mutations are no bounds either. -/
theorem applyScan_reports (h : scan.Unbounded) :
    (applyScan fmt scan).Yields fun result => ∀ report, result = .ok report →
      report.complete = true ∧ ∀ a ∈ report.anomalies, a.kind ≠ "limit" := by
  -- Every failure that the application adds is of a kind of its own.
  have hsnoc : ∀ (failures : List SegmentAnomaly) (batchId : String) (day : Option Day)
      (kind detail : String), (∀ x ∈ failures, x.kind ≠ "limit") → kind ≠ "limit" →
        ∀ x ∈ failures ++ [⟨batchId, day, kind, detail⟩], x.kind ≠ "limit" := by
    intro failures batchId day kind detail hfailures hkind x hx
    rcases List.mem_append.mp hx with hx | hx
    · exact hfailures x hx
    · rw [List.mem_singleton.mp hx]
      exact hkind
  unfold applyScan
  -- A failed registration gives no report at all; then come cleanups, tombstones and moves, each
  -- of which may add failures.
  refine Yields.bind Yields.true fun registered _ => ?_
  cases registered with
  | false => exact nofun
  | true =>
      refine Yields.bind (Yields.foldUntil (I := fun failures : List SegmentAnomaly =>
        ∀ x ∈ failures, x.kind ≠ "limit") nofun fun r _ failures hfailures => ?_)
        fun failures₁ h₁ => ?_
      · refine Yields.bind Yields.true fun detail _ => ?_
        cases detail with
        | none => exact hfailures
        | some detail => exact hsnoc _ _ _ _ _ hfailures (by decide)
      refine Yields.bind (Yields.foldUntil (I := fun failures : List SegmentAnomaly =>
        ∀ x ∈ failures, x.kind ≠ "limit") h₁ fun t _ failures hfailures => ?_)
        fun failures₂ h₂ => ?_
      · refine Yields.bind Yields.true fun cleared _ => ?_
        cases cleared with
        | true => exact hfailures
        | false => exact hsnoc _ _ _ _ _ hfailures (by decide)
      refine Yields.bind (Yields.foldUntil (I := fun result : List Subject × List SegmentAnomaly =>
        ∀ x ∈ result.2, x.kind ≠ "limit") h₂ fun q _ result hresult => ?_)
        fun result hresult report hreport => ?_
      · refine Yields.bind Yields.true fun outcome _ => ?_
        cases outcome with
        | moved => exact hresult
        | uncertain => exact hsnoc _ _ _ _ _ hresult (by decide)
        | blocked reason => exact hsnoc _ _ _ _ _ hresult (by decide)
      · obtain rfl := Except.ok.inj hreport
        refine ⟨rfl, fun a ha => ?_⟩
        rcases List.mem_append.mp ha with ha | ha
        · exact h a ha
        · exact hresult a ha

end Bounds

/-! ## The gate -/

section Gate

variable {fmt : SegmentFormat} {s : SpoolState} {t : SpoolState × Bool} {α : Type}

/-- What a report says of the pass: incomplete, nothing was touched and nothing is claimed; and where
a bound was reached, it is incomplete. -/
def Reported (s : SpoolState) (result : Except SpoolError ReconciliationReport)
    (t : SpoolState × Bool) : Prop :=
  ∀ report, result = .ok report →
    (report.complete = false → Untouched s t ∧ report.registered = [] ∧ report.quarantined = [] ∧
      report.healthy = 0) ∧
    ∀ a ∈ report.anomalies, a.kind = "limit" → report.complete = false

/-- Looking keeps the store untouched and goes on. -/
theorem safe_look {Q : α → SpoolState × Bool → Prop} {o : InventoryOp} {f : o.Resp → ScanProg α}
    (ho : o.acts = false) (ht : Untouched s t)
    (hf : ∀ r t', Untouched s t' →
      (f r).Safe scanHandler (· = ·) (fun _ _ => True) Q t') :
    (look o >>= f).Safe scanHandler (· = ·) (fun _ _ => True) Q t := by
  rintro t₁ rfl c r t' hstep
  have hquiet : Quiet (.inr o) := ho
  exact ⟨trivial, hf r t' (ht.step hquiet hstep)⟩

/-- What quiet operations return, with the state they leave. -/
theorem safe_quiet {p : ScanProg α} {φ : α → Prop} (hp : p.Only Quiet) (hφ : p.Yields φ)
    (ht : Untouched s t) :
    p.Safe scanHandler (· = ·) (fun _ _ => True) (fun a t => φ a ∧ Untouched s t) t := by
  refine Safe.of_yields hp hφ (fun t t' ht heq => heq ▸ ht) ?_ ht
  intro t o c r t' ho ht hstep
  exact ⟨trivial, ht.step ho hstep⟩

/-- An incomplete report touches nothing. -/
theorem finishPass_incomplete {writer : Bool} {anomalies : List SegmentAnomaly}
    (ht : Untouched s t) :
    (finishPass writer ⟨[], [], anomalies, 0, false, true⟩).Safe scanHandler (· = ·)
      (fun _ _ => True) (Reported s) t := by
  have hgate : (writer && false && true) = false := by cases writer <;> rfl
  have honly : (finishPass writer ⟨[], [], anomalies, 0, false, true⟩).Only Quiet := by
    refine look_only rfl fun _ => ?_
    simp only [hgate]
    trivial
  have hyields : (finishPass writer ⟨[], [], anomalies, 0, false, true⟩).Yields
      fun result => result = .ok ⟨[], [], anomalies, 0, false, true⟩ := by
    intro r
    show (if (writer && false && true) = true then _ else _ : ScanProg _).Yields _
    rw [hgate]
    rfl
  refine (safe_quiet honly hyields ht).mono fun result t' hresult report hreport => ?_
  obtain ⟨rfl, ht'⟩ := hresult
  obtain rfl := Except.ok.inj hreport
  exact ⟨fun _ => ⟨ht', rfl, rfl, rfl⟩, fun _ _ _ => rfl⟩

/-- What a complete pass reports. -/
theorem finishPass_yields {writer : Bool} {report : ReconciliationReport}
    {φ : Except SpoolError ReconciliationReport → Prop} (hreport : φ (.ok report))
    (herror : φ (.error barrierNotAcquired)) : (finishPass writer report).Yields φ := by
  intro r
  show (if (writer && report.complete && report.recoverySafe) = true then _ else _ :
    ScanProg _).Yields _
  split
  · intro shared
    cases shared with
    | false => exact herror
    | true => exact fun _ => hreport
  · exact hreport

/-- Behind the gate every report is complete, and no bound was reached. -/
theorem mutate_yields (writer : Bool) {scan : Scan fmt.Frame} (hscan : scan.Unbounded)
    (hcapped : scan.capped = false) :
    (mutate fmt writer scan).Yields fun result => ∀ report, result = .ok report →
      report.complete = true ∧ ∀ a ∈ report.anomalies, a.kind ≠ "limit" := by
  unfold mutate
  refine Yields.bind Yields.true fun uncertain _ => ?_
  cases uncertain with
  | some day =>
      refine finishPass_yields (fun report hreport => ?_) nofun
      obtain rfl := Except.ok.inj hreport
      refine ⟨rfl, fun a ha => ?_⟩
      have hreported : scan.reported = scan.anomalies := by
        rw [Scan.reported, hcapped]
        rfl
      rcases List.mem_append.mp ha with ha | ha
      · exact hscan a (hreported ▸ ha)
      · rw [List.mem_singleton.mp ha]
        exact (by decide : "quarantine_uncertain" ≠ "limit")
  | none =>
      refine Yields.bind (applyScan_reports hscan).inl fun result hresult => ?_
      rcases result with e | report
      · exact nofun
      · refine finishPass_yields (fun report' hreport' => ?_) nofun
        obtain rfl := Except.ok.inj hreport'
        exact hresult _ rfl

/-- **The gate.** -/
theorem scanRun_gate {writer : Bool} :
    (scanRun fmt writer).Safe scanHandler (· = ·) (fun _ _ => True) (Reported s) (s, false) := by
  have herror : ∀ e t, Reported s (.error e) t := fun _ _ => nofun
  unfold scanRun
  refine safe_look rfl ⟨rfl, rfl, rfl⟩ fun bound t ht => ?_
  cases bound with
  | false => exact herror _ t
  | true =>
  refine safe_look rfl ht fun entered t ht => ?_
  cases entered with
  | false => exact herror _ t
  | true =>
  refine safe_look rfl ht fun index t ht => ?_
  rcases index with _ | ⟨ledger, malformed⟩
  · exact herror _ t
  have hread : (call (Γ := spoolSignature) .readRetirements).Only SpoolOp.observes :=
    ⟨trivial, fun _ => trivial⟩
  refine Safe.seq (safe_quiet hread.inl Yields.true ht) fun retirements t ht => ?_
  replace ht := ht.2
  cases retirements with
  | none => exact herror _ t
  | some retirements =>
  have hhonest : (⟨malformedRows fmt malformed, true, 0⟩ : Inventory fmt.Frame).Honest :=
    fun _ => malformedRows_unbounded
  refine Safe.seq (safe_quiet inventory_only (inventory_honest hhonest) ht) fun inv t hinv => ?_
  obtain ⟨hinv, ht⟩ := hinv
  cases hcomplete : inv.complete with
  | false =>
      -- nothing more is classified, and the pass reports
      simp only [Bool.false_and, Bool.false_eq_true, if_false]
      exact finishPass_incomplete ht
  | true =>
      simp only [Bool.true_and, if_true]
      refine Safe.seq (safe_quiet (Only.inl classifyInventory_only)
        (classifyInventory_unbounded (hinv hcomplete)).inl ht) fun scan t hscan => ?_
      obtain ⟨hscan, ht⟩ := hscan
      cases hcapped : scan.capped with
      | true =>
          simp only [Bool.not_true, Bool.false_eq_true, if_false]
          exact finishPass_incomplete ht
      | false =>
          simp only [Bool.not_false, if_true]
          have hreports := mutate_yields writer hscan hcapped
          have hany : (mutate fmt writer scan).Only fun _ => True := Only.true
          refine (Safe.of_yields (I := fun _ => True) hany hreports (fun _ _ _ _ => trivial)
            (fun _ _ _ _ _ _ _ _ => ⟨trivial, trivial⟩) trivial).mono fun result t' hresult => ?_
          intro report hreport
          obtain ⟨hdone, hkinds⟩ := hresult.1 report hreport
          refine ⟨fun hnot => ?_, fun a ha hkind => absurd hkind (hkinds a ha)⟩
          rw [hdone] at hnot
          cases hnot

/-- **An incomplete pass mutates nothing.** However the directories, the ledger and every operation
answer: a pass that reports itself incomplete left the directories and the tables as they were,
claims nothing, and never ran the writer action; and a pass in which a bound was reached (the day
limit, the scan limit, or the anomaly cap at any item of any phase) reports itself incomplete. -/
theorem incomplete_pass_mutates_nothing {writer : Bool} {tape : List (Choice ⊕ Shown)}
    {s' : SpoolState} {acted : Bool} {report : ReconciliationReport}
    (hplay : (scanRun fmt writer).play scanHandler (s, false) tape =
      some (.ret (.ok report), (s', acted))) :
    (report.complete = false → s'.dirs = s.dirs ∧ s'.ledger = s.ledger ∧ acted = false ∧
      report.registered = [] ∧ report.quarantined = [] ∧ report.healthy = 0) ∧
    ∀ a ∈ report.anomalies, a.kind = "limit" → report.complete = false := by
  have hgate : (scanRun fmt writer).Safe scanHandler (· = ·) (fun _ _ => True) (Reported s)
      (s, false) := scanRun_gate
  have hsafe := hgate.play (fun _ => rfl) (fun _ => trivial) (fun _ _ _ _ _ => trivial) hplay
  obtain ⟨hincomplete, hbounds⟩ := hsafe.2 _ rfl report rfl
  refine ⟨fun hnot => ?_, hbounds⟩
  obtain ⟨⟨hdirs, hledger, hacted⟩, hclaims⟩ := hincomplete hnot
  exact ⟨hdirs, hledger, hacted, hclaims⟩

end Gate

/-- A file waits in `pending`, and its day directory has more entries than a listing takes. -/
def truncatedTape : List (Choice ⊕ Shown) :=
  [.inr (.flag true), .inr (.flag true), .inr (.rows (some ([], []))), .inl .ok, .inr (.flag true),
    .inr (.stat .present), .inr (.flag true), .inr (.flag true), .inr (.listed (.ok [some 0])),
    .inr (.named (.error "too_many")), .inr (.flag true), .inr (.flag true), .inr (.flag true),
    .inr (.flag true)]

/-- A listing that is cut short ends in an incomplete report with one anomaly, and nothing was
moved. -/
theorem truncatedTape_untouched : ∃ report s' acted,
    (scanRun sampleFormat true).play scanHandler
      (SpoolState.empty.create ⟨.pending, 0, "b1.jsonl"⟩ [0], false) truncatedTape =
        some (.ret (.ok report), (s', acted)) ∧
    report.complete = false ∧ report.anomalies.length = 1 ∧
    s'.dirs = (SpoolState.empty.create ⟨.pending, 0, "b1.jsonl"⟩ [0]).dirs ∧ acted = false := by
  refine ⟨_, _, _, rfl, rfl, rfl, ?_⟩
  obtain ⟨hdirs, -, hacted, -⟩ := (@incomplete_pass_mutates_nothing sampleFormat _ true
    truncatedTape _ _ _ rfl).1 rfl
  exact ⟨hdirs, hacted⟩

end Milhouse
