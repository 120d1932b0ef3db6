import Milhouse.Core.Clock
import Milhouse.State.Database

/-!
# Milhouse — named leases and their fence

The `_leases` table holds one row per lease name. `acquireLease`, `renewLease` and `releaseLease`
each run in one `BEGIN IMMEDIATE` transaction, so contenders are serialised and a run of any
number of processes is a sequence of whole calls. What one call can do to the table is said once,
in **`acquireLease_ok`**, **`renewLease_ok`** and **`releaseLease_cases`**; the results about whole
runs build on these only.
-/

namespace Milhouse

/-! ## The table and its operations -/

/-- A row of `_leases`, under its `name`. -/
structure LeaseRow where
  holder : String
  fence : Nat
  acquiredAt : Stamp
  expiresAt : Stamp
  deriving DecidableEq, Repr

abbrev LeasesTable := Table String LeaseRow

/-- An owned, fenced, time-bounded lease as handed to its holder. -/
structure Lease where
  name : String
  holder : String
  fence : Nat
  acquiredAt : Stamp
  expiresAt : Stamp
  deriving DecidableEq, Repr

/-- Ten years; bounds the deadline arithmetic. -/
def maxTtlSeconds : Int := 3650 * 86400

/-- `_validate_identifier`. -/
def validateIdentifier (value code subject : String) : Except StateError Unit :=
  if value.length = 0 ∨ 256 < value.length then
    .error ⟨code, s!"a lease {subject} must be bounded non-empty text"⟩
  else .ok ()

/-- `_validate_ttl`. -/
def validateTtl (ttlSeconds : Int) : Except StateError Nat :=
  if 0 < ttlSeconds ∧ ttlSeconds ≤ maxTtlSeconds then .ok ttlSeconds.toNat
  else .error ⟨"MH_STATE_LEASE_TTL", "a lease requires a positive bounded whole-second lifetime"⟩

/-- `_stamps`: the stamps of `now` and of the deadline; `none` is the `OverflowError`. -/
def stamps (now : Instant) (ttlSeconds : Nat) : Option (Stamp × Stamp) :=
  (now.addSeconds ttlSeconds).map fun deadline => (formatTimestamp now, formatTimestamp deadline)

/-- The checks `acquire_lease` and `renew_lease` make before their transaction, in order;
`failed` is the error of a deadline that overflows. -/
def leaseArguments (name holder : String) (now : Instant) (ttlSeconds : Int)
    (failed : StateError) : Except StateError (Stamp × Stamp) := do
  validateIdentifier name "MH_STATE_LEASE_NAME" "name"
  validateIdentifier holder "MH_STATE_LEASE_HOLDER" "holder"
  let ttl ← validateTtl ttlSeconds
  match stamps now ttl with
  | some pair => .ok pair
  | none => .error failed

def leaseNotAcquired : StateError := ⟨"MH_STATE_LEASE", "the lease could not be acquired"⟩
def leaseNotRenewed : StateError := ⟨"MH_STATE_LEASE", "the lease could not be renewed"⟩
def leaseNotReleased : StateError := ⟨"MH_STATE_LEASE", "the lease could not be released"⟩

def leaseHeld : StateError :=
  ⟨"MH_STATE_LEASE_HELD", "the lease is held by a different live holder"⟩

def leaseLost : StateError :=
  ⟨"MH_STATE_LEASE_LOST", "the lease is not held by this holder or has expired"⟩

def leaseStale : StateError :=
  ⟨"MH_STATE_LEASE_LOST", "the lease is no longer held by this holder"⟩

/-- The fence an acquiring holder gets: kept by the holder of the row, incremented on takeover,
and 1 where the name has no row. -/
def nextFence (existing : Option LeaseRow) (holder : String) : Nat :=
  match existing with
  | some row => if row.holder = holder then row.fence else row.fence + 1
  | none => 1

/-- The body of the `acquire_lease` transaction. -/
def acquireBody (name holder : String) (acquired expires : Stamp) (leases : LeasesTable) :
    Except StateError (Lease × LeasesTable) :=
  let existing := leases.lookup name
  if existing.any fun row => row.holder ≠ holder ∧ acquired < row.expiresAt then .error leaseHeld
  else
    let fence := nextFence existing holder
    -- binding a larger `int` raises `OverflowError`, which the caller catches
    if sqliteMaxInteger < fence then .error leaseNotAcquired
    else .ok (⟨name, holder, fence, acquired, expires⟩,
      leases.insert name ⟨holder, fence, acquired, expires⟩)

/-- `acquire_lease`. -/
def acquireLease (fault : TxnFault) (name holder : String) (now : Instant) (ttlSeconds : Int)
    (leases : LeasesTable) : Except StateError Lease × LeasesTable :=
  match leaseArguments name holder now ttlSeconds leaseNotAcquired with
  | .error e => (.error e, leases)
  | .ok (acquired, expires) =>
      transaction fault leaseNotAcquired (acquireBody name holder acquired expires) leases

/-- The body of the `renew_lease` transaction. -/
def renewBody (name holder : String) (acquired expires : Stamp) (leases : LeasesTable) :
    Except StateError (Lease × LeasesTable) :=
  match leases.lookup name with
  | none => .error leaseLost
  | some row =>
      if row.holder ≠ holder ∨ row.expiresAt ≤ acquired then .error leaseLost
      else .ok (⟨name, holder, row.fence, acquired, expires⟩,
        leases.insert name { row with acquiredAt := acquired, expiresAt := expires })

/-- `renew_lease`. -/
def renewLease (fault : TxnFault) (name holder : String) (now : Instant) (ttlSeconds : Int)
    (leases : LeasesTable) : Except StateError Lease × LeasesTable :=
  match leaseArguments name holder now ttlSeconds leaseNotRenewed with
  | .error e => (.error e, leases)
  | .ok (acquired, expires) =>
      transaction fault leaseNotRenewed (renewBody name holder acquired expires) leases

/-- The body of the `release_lease` transaction: delete the row `holder` holds, if any. -/
def releaseBody (name holder : String) (leases : LeasesTable) :
    Except StateError (Bool × LeasesTable) :=
  if (leases.lookup name).any (·.holder = holder) then .ok (true, leases.erase name)
  else .ok (false, leases)

/-- `release_lease`. -/
def releaseLease (fault : TxnFault) (name holder : String) (leases : LeasesTable) :
    Except StateError Bool × LeasesTable :=
  match (do validateIdentifier name "MH_STATE_LEASE_NAME" "name"
            validateIdentifier holder "MH_STATE_LEASE_HOLDER" "holder") with
  | .error e => (.error e, leases)
  | .ok () => transaction fault leaseNotReleased (releaseBody name holder) leases

/-- `require_current_lease`, inside the caller's transaction. -/
def requireCurrentLease (leases : LeasesTable) (lease : Lease) : Except StateError Unit :=
  match leases.lookup lease.name with
  | none => .error leaseStale
  | some row =>
      if row.holder ≠ lease.holder ∨ row.fence ≠ lease.fence then .error leaseStale else .ok ()

/-! ## What each operation can do -/

/-- The arguments pass the checks of `acquire_lease` and its transaction meets no fault. -/
def AcquireRuns (fault : TxnFault) (name holder : String) (now : Instant) (ttl : Int) : Prop :=
  fault = .none ∧ ∃ pair, leaseArguments name holder now ttl leaseNotAcquired = .ok pair

/-- The row an operation leaves for a lease it hands out. -/
def Lease.row (lease : Lease) : LeaseRow :=
  ⟨lease.holder, lease.fence, lease.acquiredAt, lease.expiresAt⟩

/-- A successful acquire writes the row of the lease it returns, under the next fence. -/
theorem acquireLease_ok {fault : TxnFault} {name holder : String} {now : Instant} {ttl : Int}
    {leases leases' : LeasesTable} {lease : Lease}
    (h : acquireLease fault name holder now ttl leases = (.ok lease, leases')) :
    lease.name = name ∧ lease.holder = holder ∧
      lease.fence = nextFence (leases.lookup name) holder ∧
      leases' = leases.insert name lease.row := by
  unfold acquireLease at h
  cases hargs : leaseArguments name holder now ttl leaseNotAcquired with
  | error e => simp [hargs] at h
  | ok pair =>
      simp only [hargs] at h
      have hbody := (transaction_ok h).2
      unfold acquireBody at hbody
      simp only at hbody
      split at hbody
      · cases hbody
      · split at hbody
        · cases hbody
        · obtain ⟨rfl, rfl⟩ := Prod.mk.inj (Except.ok.inj hbody)
          exact ⟨rfl, rfl, rfl, rfl⟩

/-- A successful acquire passed its checks and met no fault. -/
theorem acquireLease_runs {fault : TxnFault} {name holder : String} {now : Instant} {ttl : Int}
    {leases leases' : LeasesTable} {lease : Lease}
    (h : acquireLease fault name holder now ttl leases = (.ok lease, leases')) :
    AcquireRuns fault name holder now ttl := by
  unfold acquireLease at h
  cases hargs : leaseArguments name holder now ttl leaseNotAcquired with
  | error e => simp [hargs] at h
  | ok pair =>
      simp only [hargs] at h
      exact ⟨(transaction_ok h).1, pair, hargs⟩

/-- An acquire that runs and finds no row hands out fence 1. -/
theorem acquireLease_fresh {fault : TxnFault} {name holder : String} {now : Instant} {ttl : Int}
    {leases : LeasesTable} (hruns : AcquireRuns fault name holder now ttl)
    (hrow : leases.lookup name = none) :
    ∃ lease leases', acquireLease fault name holder now ttl leases = (.ok lease, leases') ∧
      lease.holder = holder ∧ lease.fence = 1 := by
  obtain ⟨rfl, ⟨acquired, expires⟩, hargs⟩ := hruns
  refine ⟨⟨name, holder, 1, acquired, expires⟩,
    leases.insert name ⟨holder, 1, acquired, expires⟩, ?_, rfl, rfl⟩
  simp only [acquireLease, hargs]
  refine transaction_none ?_
  simp [acquireBody, hrow, nextFence, sqliteMaxInteger]

/-- A failed acquire changes nothing. -/
theorem acquireLease_error {fault : TxnFault} {name holder : String} {now : Instant} {ttl : Int}
    {leases leases' : LeasesTable} {e : StateError}
    (h : acquireLease fault name holder now ttl leases = (.error e, leases')) :
    leases' = leases := by
  unfold acquireLease at h
  cases hargs : leaseArguments name holder now ttl leaseNotAcquired with
  | error e => simpa [hargs] using (Prod.mk.inj (hargs ▸ h)).2.symm
  | ok pair =>
      simp only [hargs] at h
      exact transaction_error h

/-- A successful renewal finds its holder's row and keeps the fence. -/
theorem renewLease_ok {fault : TxnFault} {name holder : String} {now : Instant} {ttl : Int}
    {leases leases' : LeasesTable} {lease : Lease}
    (h : renewLease fault name holder now ttl leases = (.ok lease, leases')) :
    lease.name = name ∧ lease.holder = holder ∧
      (∃ row, leases.lookup name = some row ∧ row.holder = holder ∧ row.fence = lease.fence) ∧
      leases' = leases.insert name lease.row := by
  unfold renewLease at h
  cases hargs : leaseArguments name holder now ttl leaseNotRenewed with
  | error e => simp [hargs] at h
  | ok pair =>
      simp only [hargs] at h
      have hbody := (transaction_ok h).2
      unfold renewBody at hbody
      split at hbody
      · cases hbody
      · rename_i row hrow
        split at hbody
        · cases hbody
        · rename_i hlive
          obtain ⟨rfl, rfl⟩ := Prod.mk.inj (Except.ok.inj hbody)
          have hholder : row.holder = holder := by
            by_contra hne
            exact hlive (Or.inl hne)
          exact ⟨rfl, rfl, ⟨row, hrow, hholder, rfl⟩, by rw [← hholder]; rfl⟩

/-- A failed renewal changes nothing. -/
theorem renewLease_error {fault : TxnFault} {name holder : String} {now : Instant} {ttl : Int}
    {leases leases' : LeasesTable} {e : StateError}
    (h : renewLease fault name holder now ttl leases = (.error e, leases')) :
    leases' = leases := by
  unfold renewLease at h
  cases hargs : leaseArguments name holder now ttl leaseNotRenewed with
  | error e => simpa [hargs] using (Prod.mk.inj (hargs ▸ h)).2.symm
  | ok pair =>
      simp only [hargs] at h
      exact transaction_error h

/-- A release deletes the name's row or changes nothing. -/
theorem releaseLease_cases {fault : TxnFault} {name holder : String}
    {leases leases' : LeasesTable} {r : Except StateError Bool}
    (h : releaseLease fault name holder leases = (r, leases')) :
    leases' = leases ∨ leases' = leases.erase name := by
  unfold releaseLease at h
  split at h
  · exact Or.inl (Prod.mk.inj h).2.symm
  · cases r with
    | error e => exact Or.inl (transaction_error h)
    | ok removed =>
        have hbody := (transaction_ok h).2
        unfold releaseBody at hbody
        split at hbody
        · exact Or.inr (Prod.mk.inj (Except.ok.inj hbody)).2.symm
        · exact Or.inl (Prod.mk.inj (Except.ok.inj hbody)).2.symm

/-- A lease is refused unless the name's row repeats its holder and its fence. -/
theorem requireCurrentLease_eq_error {leases : LeasesTable} {lease : Lease}
    (h : ∀ row, leases.lookup lease.name = some row →
      row.holder ≠ lease.holder ∨ row.fence ≠ lease.fence) :
    requireCurrentLease leases lease = .error leaseStale := by
  unfold requireCurrentLease
  cases hrow : leases.lookup lease.name with
  | none => rfl
  | some row => simp only [if_pos (h row hrow)]

end Milhouse
