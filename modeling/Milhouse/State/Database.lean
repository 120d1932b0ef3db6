import Mathlib.Algebra.Group.Nat.Defs
import Mathlib.Data.List.AList

/-!
# Milhouse — the control database and its transaction boundary

A SQLite table is modelled by its rows under their primary key, an `AList`, whose invariant is
that no key has two rows. `transaction` is `ControlDatabase.transaction`: the body runs on the
tables, and either all of its writes become visible or none does. A `TxnFault` says where SQLite
fails in one transaction, if it does.
-/

namespace Milhouse

/-- A table: rows under a primary key. -/
abbrev Table (κ ν : Type) := AList fun _ : κ => ν

namespace Table

variable {κ ν : Type} [DecidableEq κ]

/-- Rewrite every row in place. -/
def mapValues (f : κ → ν → ν) (t : Table κ ν) : Table κ ν :=
  ⟨t.entries.map fun e => ⟨e.1, f e.1 e.2⟩, t.nodupKeys.map₂ f⟩

theorem lookup_mapValues (f : κ → ν → ν) (t : Table κ ν) (k : κ) :
    (mapValues f t).lookup k = (t.lookup k).map (f k) :=
  List.dlookup_map₂ k

end Table

/-- The largest integer a SQLite column stores; a larger Python `int` raises `OverflowError`. -/
def sqliteMaxInteger : Nat := 2 ^ 63 - 1

/-- A control-state failure: a stable code and a static message. -/
structure StateError where
  code : String
  message : String
  deriving DecidableEq, Repr

/-- Where SQLite fails in one `BEGIN IMMEDIATE` transaction. -/
inductive TxnFault where
  /-- No failure. -/
  | none
  /-- `BEGIN IMMEDIATE` fails (a busy database, for one). -/
  | begin
  /-- A statement of the body raises `sqlite3.Error`. -/
  | statement
  /-- `COMMIT` fails and is rolled back. -/
  | commit
  deriving DecidableEq, Repr

def beginFailed : StateError :=
  ⟨"MH_STATE_TXN", "the control transaction could not begin"⟩

def commitFailed : StateError :=
  ⟨"MH_STATE_TXN", "the control transaction could not commit"⟩

section Transaction

variable {σ α : Type}

/-- `ControlDatabase.transaction` around `body`. A `StateError` of the body rolls back and
propagates; `sqlError` is what the caller raises when a statement fails inside the block. -/
def transaction (fault : TxnFault) (sqlError : StateError)
    (body : σ → Except StateError (α × σ)) (tables : σ) : Except StateError α × σ :=
  match fault with
  | .begin => (.error beginFailed, tables)
  | .statement => (.error sqlError, tables)
  | .none | .commit =>
      match body tables with
      | .error e => (.error e, tables)
      | .ok (value, tables') =>
          if fault = .commit then (.error commitFailed, tables) else (.ok value, tables')

/-- **A transaction that raises leaves every table as it was.** -/
theorem transaction_error {fault : TxnFault} {sqlError e : StateError}
    {body : σ → Except StateError (α × σ)} {tables tables' : σ}
    (h : transaction fault sqlError body tables = (.error e, tables')) : tables' = tables := by
  unfold transaction at h
  split at h
  · exact (Prod.mk.inj h).2.symm
  · exact (Prod.mk.inj h).2.symm
  all_goals
    split at h
    · exact (Prod.mk.inj h).2.symm
    · split at h
      · exact (Prod.mk.inj h).2.symm
      · exact absurd (Prod.mk.inj h).1 (by simp)

/-- **A transaction that returns ran its body and made its writes visible.** -/
theorem transaction_ok {fault : TxnFault} {sqlError : StateError} {value : α}
    {body : σ → Except StateError (α × σ)} {tables tables' : σ}
    (h : transaction fault sqlError body tables = (.ok value, tables')) :
    fault = .none ∧ body tables = .ok (value, tables') := by
  unfold transaction at h
  cases fault with
  | begin => simp at h
  | statement => simp at h
  | commit => cases hbody : body tables <;> simp [hbody] at h
  | none =>
      cases hbody : body tables with
      | error e => simp [hbody] at h
      | ok r => simpa [hbody, Prod.ext_iff] using h

/-- Without a fault a transaction is its body. -/
theorem transaction_none {sqlError : StateError} {body : σ → Except StateError (α × σ)}
    {tables tables' : σ} {value : α} (h : body tables = .ok (value, tables')) :
    transaction .none sqlError body tables = (.ok value, tables') := by
  simp [transaction, h]

end Transaction

end Milhouse
