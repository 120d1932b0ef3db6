import Mathlib.Data.List.Induction
import Milhouse.State.Leases

/-!
# Milhouse — lease fencing over whole runs

`LeaseHistory` adds to the `_leases` table what no row remembers: every `Lease` value ever handed
out, newest first. The crux is that the fence lives in the row, and `releaseLease` deletes the
row. As long as an acquire that finds no row is made by the only holder the name ever had, the
grants of a name form a `FenceChain` and the row repeats the newest of them:

* **`leaseInv_step`** — one call keeps `LeaseInv` if it does not restart a fence;
* **`FenceChain.lt_of_changedHands`** — in a chain, a change of hands separates the fences;
* **`leaseFencing_iff`** — a run is fenced exactly when none of its calls restarts a fence.
-/

namespace Milhouse

/-! ## Runs of lease calls -/

/-- One call by one process, with the fault its transaction meets. -/
inductive LeaseCall where
  | acquire (fault : TxnFault) (name holder : String) (now : Instant) (ttlSeconds : Int)
  | renew (fault : TxnFault) (name holder : String) (now : Instant) (ttlSeconds : Int)
  | release (fault : TxnFault) (name holder : String)

/-- The table together with every lease handed out so far, newest first. -/
structure LeaseHistory where
  leases : LeasesTable
  handedOut : List Lease

/-- The leases handed out for one name, newest first. -/
def LeaseHistory.grants (s : LeaseHistory) (name : String) : List Lease :=
  s.handedOut.filter (·.name = name)

/-- Record what a call returned. -/
def LeaseHistory.record (s : LeaseHistory) :
    Except StateError Lease × LeasesTable → LeaseHistory
  | (.ok lease, leases) => ⟨leases, lease :: s.handedOut⟩
  | (.error _, leases) => ⟨leases, s.handedOut⟩

/-- One call. -/
def LeaseHistory.step (s : LeaseHistory) : LeaseCall → LeaseHistory
  | .acquire fault name holder now ttl => s.record (acquireLease fault name holder now ttl s.leases)
  | .renew fault name holder now ttl => s.record (renewLease fault name holder now ttl s.leases)
  | .release fault name holder => ⟨(releaseLease fault name holder s.leases).2, s.handedOut⟩

/-- Nothing was ever handed out. -/
def LeaseHistory.initial : LeaseHistory := ⟨∅, []⟩

/-- The state after a sequence of calls. -/
def LeaseHistory.after (calls : List LeaseCall) : LeaseHistory :=
  calls.foldl LeaseHistory.step .initial

/-! ## The property and the condition -/

/-- Some lease of `later` went to another holder than `lease` did. -/
def ChangedHands (lease : Lease) (later : List Lease) : Prop :=
  ∃ g ∈ later, g.holder ≠ lease.holder

/-- The fence that a successful acquire in state `s` returns is above the fence of every lease of
the name handed out before a change of hands. -/
def AcquireFenced (s : LeaseHistory) : LeaseCall → Prop
  | .acquire fault name holder now ttl =>
      ∀ lease leases', acquireLease fault name holder now ttl s.leases = (.ok lease, leases') →
        ∀ later old earlier, s.grants name = later ++ old :: earlier →
          ChangedHands old (lease :: later) → old.fence < lease.fence
  | _ => True

/-- A lease from before a change of hands does not pass `requireCurrentLease`. -/
def StaleRefused (s : LeaseHistory) : Prop :=
  ∀ name later old earlier, s.grants name = later ++ old :: earlier →
    ChangedHands old later → requireCurrentLease s.leases old = .error leaseStale

/-- Lease fencing along a run: before each call every stale lease is refused, and each acquire is
fenced. -/
def LeaseFencing (calls : List LeaseCall) : Prop :=
  ∀ before call rest, calls = before ++ call :: rest →
    AcquireFenced (.after before) call ∧ StaleRefused (.after (before ++ [call]))

/-- The call does not restart the fence of a name that changed hands: an acquire that finds no row
is made by the only holder the name was ever handed to. -/
def KeepsFence (s : LeaseHistory) : LeaseCall → Prop
  | .acquire fault name holder now ttl =>
      AcquireRuns fault name holder now ttl → s.leases.lookup name = none →
        ∀ g ∈ s.grants name, g.holder = holder
  | _ => True

/-! ## Chains of grants -/

/-- The grants of one name, newest first: the oldest has fence 1, a grant to the same holder keeps
the fence and a grant to another holder increments it. -/
inductive FenceChain : List Lease → Prop
  | nil : FenceChain []
  | first {g : Lease} (hfence : g.fence = 1) : FenceChain [g]
  | same {g e : Lease} {rest : List Lease} (hrest : FenceChain (e :: rest))
      (hholder : g.holder = e.holder) (hfence : g.fence = e.fence) : FenceChain (g :: e :: rest)
  | takeover {g e : Lease} {rest : List Lease} (hrest : FenceChain (e :: rest))
      (hholder : g.holder ≠ e.holder) (hfence : g.fence = e.fence + 1) :
      FenceChain (g :: e :: rest)

/-- Fences never decrease along a chain. -/
theorem FenceChain.le_head {g : Lease} {rest : List Lease} (h : FenceChain (g :: rest)) :
    ∀ e ∈ rest, e.fence ≤ g.fence := by
  induction rest generalizing g with
  | nil => simp
  | cons e rest ih =>
      intro x hx
      have hstep : FenceChain (e :: rest) ∧ e.fence ≤ g.fence := by
        cases h with
        | same hrest _ hfence => exact ⟨hrest, by omega⟩
        | takeover hrest _ hfence => exact ⟨hrest, by omega⟩
      rcases List.mem_cons.mp hx with rfl | hx
      · exact hstep.2
      · exact Nat.le_trans (ih hstep.1 x hx) hstep.2

/-- If a name only ever had one holder, its fence is still 1. -/
theorem FenceChain.eq_one {l : List Lease} (h : FenceChain l) {holder : String}
    (hone : ∀ g ∈ l, g.holder = holder) : ∀ g ∈ l, g.fence = 1 := by
  induction h with
  | nil => simp
  | first hfence => simpa using hfence
  | @same g e rest _ _ hfence ih =>
      have hrest := ih fun x hx => hone x (List.mem_cons_of_mem _ hx)
      intro x hx
      rcases List.mem_cons.mp hx with rfl | hx
      · rw [hfence]; exact hrest e (by simp)
      · exact hrest x hx
  | @takeover g e rest _ hholder _ _ =>
      have heq : g.holder = e.holder := by rw [hone g (by simp), hone e (by simp)]
      exact absurd heq hholder

/-- **A change of hands separates fences strictly**: in a chain, a grant made before the change
has a smaller fence than the newest grant. -/
theorem FenceChain.lt_of_changedHands {g old : Lease} {later earlier : List Lease}
    (h : FenceChain (g :: later ++ old :: earlier)) (hchanged : ChangedHands old (g :: later)) :
    old.fence < g.fence := by
  induction later generalizing g with
  | nil =>
      obtain ⟨x, hx, hne⟩ := hchanged
      obtain rfl : x = g := by simpa using hx
      cases h with
      | same _ hholder => exact absurd hholder hne
      | takeover _ _ hfence => omega
  | cons e later ih =>
      cases h with
      | same hrest hholder hfence =>
          -- the newest two have one holder, so the change lies further back
          have hback : ChangedHands old (e :: later) := by
            obtain ⟨x, hx, hne⟩ := hchanged
            rcases List.mem_cons.mp hx with rfl | hx
            · exact ⟨e, by simp, hholder ▸ hne⟩
            · exact ⟨x, hx, hne⟩
          have := ih hrest hback
          omega
      | takeover hrest _ hfence =>
          have := hrest.le_head old (by simp)
          omega

/-! ## What one call can do -/

/-- **The inversion of one call.** It hands out a lease under the next fence of its name and
stores its row (finding no row only as an acquire that runs), or it leaves the state as it is, or
it deletes one row. -/
theorem LeaseHistory.step_cases (s : LeaseHistory) (call : LeaseCall) :
    (∃ lease, s.step call = ⟨s.leases.insert lease.name lease.row, lease :: s.handedOut⟩ ∧
      lease.fence = nextFence (s.leases.lookup lease.name) lease.holder ∧
      (s.leases.lookup lease.name = none → ∃ fault now ttl,
        call = .acquire fault lease.name lease.holder now ttl ∧
          AcquireRuns fault lease.name lease.holder now ttl)) ∨
    s.step call = s ∨ ∃ name, s.step call = ⟨s.leases.erase name, s.handedOut⟩ := by
  cases call with
  | acquire fault name holder now ttl =>
      simp only [LeaseHistory.step]
      cases hcall : acquireLease fault name holder now ttl s.leases with
      | mk r leases' =>
          cases r with
          | error e =>
              obtain rfl := acquireLease_error hcall
              exact Or.inr (Or.inl rfl)
          | ok lease =>
              have hruns := acquireLease_runs hcall
              obtain ⟨rfl, rfl, hfence, rfl⟩ := acquireLease_ok hcall
              exact Or.inl ⟨lease, rfl, hfence, fun _ => ⟨fault, now, ttl, rfl, hruns⟩⟩
  | renew fault name holder now ttl =>
      simp only [LeaseHistory.step]
      cases hcall : renewLease fault name holder now ttl s.leases with
      | mk r leases' =>
          cases r with
          | error e =>
              obtain rfl := renewLease_error hcall
              exact Or.inr (Or.inl rfl)
          | ok lease =>
              obtain ⟨rfl, rfl, ⟨row, hrow, hholder, hfence⟩, rfl⟩ := renewLease_ok hcall
              refine Or.inl ⟨lease, rfl, ?_, fun hnone => by simp [hrow] at hnone⟩
              simp [nextFence, hrow, hholder, hfence]
  | release fault name holder =>
      simp only [LeaseHistory.step]
      cases hcall : releaseLease fault name holder s.leases with
      | mk r leases' =>
          rcases releaseLease_cases hcall with rfl | rfl
          · exact Or.inr (Or.inl rfl)
          · exact Or.inr (Or.inr ⟨name, rfl⟩)

/-! ## The invariant -/

/-- The grants of every name form a chain, and a row repeats the newest grant of its name. -/
structure LeaseInv (s : LeaseHistory) : Prop where
  chain : ∀ name, FenceChain (s.grants name)
  row : ∀ name row, s.leases.lookup name = some row →
    ∃ g rest, s.grants name = g :: rest ∧ g.holder = row.holder ∧ g.fence = row.fence

/-- Every fence handed out is positive, and so is every fence in the table. -/
structure FencePositive (s : LeaseHistory) : Prop where
  grant : ∀ g ∈ s.handedOut, 0 < g.fence
  row : ∀ name row, s.leases.lookup name = some row → 0 < row.fence

theorem LeaseHistory.grants_cons {s : LeaseHistory} {lease : Lease} {leases : LeasesTable}
    (name : String) :
    LeaseHistory.grants ⟨leases, lease :: s.handedOut⟩ name =
      if lease.name = name then lease :: s.grants name else s.grants name := by
  unfold LeaseHistory.grants
  by_cases h : lease.name = name <;> simp [h]

/-- Handing out a lease that extends the chain of its name, with its row, keeps the invariant. -/
theorem LeaseInv.handOut {s : LeaseHistory} (hinv : LeaseInv s) {lease : Lease}
    (hchain : FenceChain (lease :: s.grants lease.name)) :
    LeaseInv ⟨s.leases.insert lease.name lease.row, lease :: s.handedOut⟩ := by
  constructor
  · intro name
    rw [LeaseHistory.grants_cons]
    split
    · rename_i h; exact h ▸ hchain
    · exact hinv.chain name
  · intro name row hrow
    rw [LeaseHistory.grants_cons]
    by_cases h : lease.name = name
    · subst h
      rw [AList.lookup_insert] at hrow
      obtain rfl := Option.some.inj hrow
      exact ⟨lease, _, if_pos rfl, rfl, rfl⟩
    · rw [AList.lookup_insert_ne (Ne.symm h)] at hrow
      rw [if_neg h]
      exact hinv.row name row hrow

/-- Deleting a row keeps the invariant. -/
theorem LeaseInv.erase {s : LeaseHistory} (hinv : LeaseInv s) (name : String) :
    LeaseInv ⟨s.leases.erase name, s.handedOut⟩ := by
  refine ⟨hinv.chain, fun n row hrow => ?_⟩
  by_cases h : n = name
  · subst h; simp at hrow
  · exact hinv.row n row (by rwa [AList.lookup_erase_ne h] at hrow)

/-- The fence of an acquire that keeps the fence of the name extends the chain of its grants. -/
theorem LeaseInv.chain_acquire {s : LeaseHistory} (hinv : LeaseInv s) {lease : Lease}
    (hfence : lease.fence = nextFence (s.leases.lookup lease.name) lease.holder)
    (hkeep : s.leases.lookup lease.name = none → ∀ g ∈ s.grants lease.name, g.holder = lease.holder) :
    FenceChain (lease :: s.grants lease.name) := by
  cases hrow : s.leases.lookup lease.name with
  | none =>
      have hone := hkeep hrow
      have hfence : lease.fence = 1 := by rw [hfence, hrow]; rfl
      have hchain := hinv.chain lease.name
      cases hgrants : s.grants lease.name with
      | nil => exact .first hfence
      | cons g rest =>
          rw [hgrants] at hone hchain
          exact .same hchain (hone g (by simp)).symm
            (by rw [hfence, hchain.eq_one hone g (by simp)])
  | some row =>
      obtain ⟨g, rest, hgrants, hholder, hgfence⟩ := hinv.row _ _ hrow
      have hchain := hinv.chain lease.name
      rw [hgrants] at hchain ⊢
      rw [hrow] at hfence
      unfold nextFence at hfence
      by_cases hsame : row.holder = lease.holder
      · exact .same hchain (hsame ▸ hholder.symm) (by rw [hfence, hgfence]; simp [hsame])
      · exact .takeover hchain (fun h => hsame (hholder ▸ h.symm))
          (by rw [hfence, hgfence]; simp [hsame])

/-- **One call keeps the invariant if it does not restart a fence.** -/
theorem leaseInv_step {s : LeaseHistory} (hinv : LeaseInv s) {call : LeaseCall}
    (hkeep : KeepsFence s call) : LeaseInv (s.step call) := by
  rcases s.step_cases call with ⟨lease, hstep, hfence, hfresh⟩ | hstep | ⟨name, hstep⟩ <;>
    rw [hstep]
  · refine hinv.handOut (hinv.chain_acquire hfence fun hnone => ?_)
    obtain ⟨fault, now, ttl, rfl, hruns⟩ := hfresh hnone
    exact hkeep hruns hnone
  · exact hinv
  · exact hinv.erase name

/-- Under the invariant no stale lease is current. -/
theorem LeaseInv.staleRefused {s : LeaseHistory} (hinv : LeaseInv s) : StaleRefused s := by
  intro name later old earlier hgrants hchanged
  have hname : old.name = name := by
    have hmem : old ∈ s.grants name := by rw [hgrants]; simp
    simpa using (List.mem_filter.mp hmem).2
  refine requireCurrentLease_eq_error fun row hrow => Or.inr ?_
  obtain ⟨g, rest, hg, -, hfence⟩ := hinv.row _ _ hrow
  rw [hname, hgrants] at hg
  cases later with
  | nil => obtain ⟨x, hx, -⟩ := hchanged; cases hx
  | cons g' later =>
      obtain ⟨rfl, -⟩ := List.cons.inj hg
      have hchain := hinv.chain name
      rw [hgrants] at hchain
      have := hchain.lt_of_changedHands hchanged
      omega

/-- The invariant fences the next acquire. -/
theorem LeaseInv.acquireFenced {s : LeaseHistory} (hinv : LeaseInv s) {call : LeaseCall}
    (hkeep : KeepsFence s call) : AcquireFenced s call := by
  cases call with
  | renew | release => trivial
  | acquire fault name holder now ttl =>
      intro lease leases' hcall later old earlier hgrants hchanged
      have hruns := acquireLease_runs hcall
      obtain ⟨rfl, rfl, hfence, -⟩ := acquireLease_ok hcall
      have hchain := hinv.chain_acquire hfence (hkeep hruns)
      rw [hgrants] at hchain
      exact FenceChain.lt_of_changedHands hchain hchanged

/-- Every call hands out and stores positive fences. -/
theorem fencePositive_step {s : LeaseHistory} (hpos : FencePositive s) (call : LeaseCall) :
    FencePositive (s.step call) := by
  rcases s.step_cases call with ⟨lease, hstep, hfence, -⟩ | hstep | ⟨name, hstep⟩ <;> rw [hstep]
  · have hlease : 0 < lease.fence := by
      rw [hfence]
      cases hrow : s.leases.lookup lease.name with
      | none => simp [nextFence]
      | some row =>
          have := hpos.row _ _ hrow
          simp only [nextFence]
          split <;> omega
    refine ⟨?_, fun n row hrow => ?_⟩
    · simpa [hlease] using hpos.grant
    · by_cases h : n = lease.name
      · subst h
        rw [AList.lookup_insert] at hrow
        obtain rfl := Option.some.inj hrow
        exact hlease
      · exact hpos.row n row (by rwa [AList.lookup_insert_ne h] at hrow)
  · exact hpos
  · refine ⟨hpos.grant, fun n row hrow => ?_⟩
    by_cases h : n = name
    · subst h; simp at hrow
    · exact hpos.row n row (by rwa [AList.lookup_erase_ne h] at hrow)

/-! ## Whole runs -/

theorem LeaseHistory.after_snoc (calls : List LeaseCall) (call : LeaseCall) :
    LeaseHistory.after (calls ++ [call]) = (LeaseHistory.after calls).step call := by
  simp [LeaseHistory.after]

theorem fencePositive_after (calls : List LeaseCall) : FencePositive (.after calls) := by
  induction calls using List.reverseRecOn with
  | nil => exact ⟨by simp [LeaseHistory.after, LeaseHistory.initial],
      by simp [LeaseHistory.after, LeaseHistory.initial]⟩
  | append_singleton calls call ih =>
      rw [LeaseHistory.after_snoc]
      exact fencePositive_step ih call

/-- A run none of whose calls restarts a fence keeps the invariant. -/
theorem leaseInv_after (calls : List LeaseCall)
    (hkeep : ∀ before call rest, calls = before ++ call :: rest → KeepsFence (.after before) call) :
    LeaseInv (.after calls) := by
  induction calls using List.reverseRecOn with
  | nil => exact ⟨fun _ => .nil, by simp [LeaseHistory.after, LeaseHistory.initial]⟩
  | append_singleton calls call ih =>
      rw [LeaseHistory.after_snoc]
      refine leaseInv_step (ih fun before c rest h => ?_) (hkeep calls call [] (by simp))
      exact hkeep before c (rest ++ [call]) (by simp [h])

/-- **Lease fencing, exactly.** A run of lease calls is fenced if and only if every acquire that
finds no row for its name is made by the only holder the name was ever handed to. -/
theorem leaseFencing_iff (calls : List LeaseCall) :
    LeaseFencing calls ↔
      ∀ before call rest, calls = before ++ call :: rest → KeepsFence (.after before) call := by
  constructor
  · intro hfenced before call rest hcalls
    cases call with
    | renew | release => trivial
    | acquire fault name holder now ttl =>
        intro hruns hrow old hold
        by_contra hne
        obtain ⟨lease, leases', hcall, hholder, hfence⟩ := acquireLease_fresh hruns hrow
        obtain ⟨later, earlier, hgrants⟩ := List.append_of_mem hold
        have hlt := (hfenced before _ rest hcalls).1 lease leases' hcall later old earlier hgrants
          ⟨lease, by simp, fun h => hne (by rw [← hholder, h])⟩
        have hpos := (fencePositive_after before).grant old (List.mem_filter.mp hold).1
        omega
  · intro hkeep before call rest hcalls
    have hinv : LeaseInv (.after before) := by
      refine leaseInv_after before fun b c r h => hkeep b c (r ++ call :: rest) ?_
      rw [hcalls, h]
      simp
    refine ⟨hinv.acquireFenced (hkeep before call rest hcalls), ?_⟩
    rw [LeaseHistory.after_snoc]
    exact (leaseInv_step hinv (hkeep before call rest hcalls)).staleRefused

/-! ## The run that restarts a fence -/

theorem zero_lt_datetimeLimit : 0 < datetimeLimit := by decide

/-- One instant of the run below. -/
def leaseInstant : Instant := ⟨0, zero_lt_datetimeLimit⟩

/-- Holder `a` takes and releases the lease, `b` takes and releases it, and `a` takes it again. -/
def restartedFence : List LeaseCall :=
  [.acquire .none "pipeline" "a" leaseInstant 60, .release .none "pipeline" "a",
   .acquire .none "pipeline" "b" leaseInstant 60, .release .none "pipeline" "b",
   .acquire .none "pipeline" "a" leaseInstant 60]

/-- After `restartedFence` the first lease of `a` passes `requireCurrentLease` again, although `b`
owned the name in between: both fences are 1. -/
theorem leaseFencing_fails :
    ¬ LeaseFencing restartedFence ∧
      ∃ first, (LeaseHistory.after (restartedFence.take 1)).handedOut = [first] ∧
        requireCurrentLease (LeaseHistory.after restartedFence).leases first = .ok () := by
  constructor
  · intro h
    have hstale := (h (restartedFence.take 4) _ [] rfl).2 "pipeline"
    exact absurd (hstale [⟨"pipeline", "a", 1, 0, 60000⟩, ⟨"pipeline", "b", 1, 0, 60000⟩]
      ⟨"pipeline", "a", 1, 0, 60000⟩ [] (by decide) ⟨⟨"pipeline", "b", 1, 0, 60000⟩, by decide⟩)
      (by decide)
  · exact ⟨⟨"pipeline", "a", 1, 0, 60000⟩, by decide, by decide⟩

end Milhouse
