import Milhouse.Core.Clock
import Milhouse.Lib.Pool
import Milhouse.Lib.Refinement
import Mathlib.Data.List.Induction

/-!
# Milhouse — the owner of a ClickHouse destination

`claim` reads the owner of a destination and then inserts a claim row of its own; nothing ties the
two together, and the commit barrier is local to a host. `ReplacingMergeTree(claimed_at)` makes the
row with the greatest `claimed_at` the owner, the last inserted on a tie. Calls of any number of
installations interleave query by query.

* **`owner_insert`** — which row a further claim leaves as the owner;
* **`passed_own`** — where no insert displaces an owner, whoever is let through owns the destination;
* `alone_claim` — what a claim does that no other call interrupts;
* **`reclaim_reads_back_iff`** — when a reclaim takes the destination over.
-/

namespace Milhouse

open Interaction Transition

/-- A storage failure: a stable code and a static message. -/
structure StorageError where
  code : String
  message : String
  deriving DecidableEq, Repr

namespace Ownership

def ownershipFail (message : String) : StorageError := ⟨"MH_STORAGE_OWNERSHIP", message⟩

def otherOwner : StorageError :=
  ownershipFail ("this ClickHouse destination is owned by another installation; " ++
    "use --reclaim on migrate to take ownership")
def unclaimed : StorageError :=
  ownershipFail "the ClickHouse destination is unclaimed; run `storage migrate` first"

/-! ## Tokens -/

def isIdentifierStart (c : Char) : Bool :=
  ('A' ≤ c && c ≤ 'Z') || ('a' ≤ c && c ≤ 'z') || c = '_'

/-- `[A-Za-z_][A-Za-z0-9_]{0,127}`. -/
def isIdentifier : List Char → Bool
  | [] => false
  | c :: rest =>
      isIdentifierStart c && rest.length ≤ 127 && rest.all fun c => isIdentifierStart c || c.isDigit

/-- `mh_in1_[0-9a-f]{32}`. -/
def isInstallationId (token : List Char) : Bool :=
  "mh_in1_".toList.isPrefixOf token && token.length = 39 &&
    (token.drop 7).all fun c => c.isDigit || ('a' ≤ c && c ≤ 'f')

/-! ## The destination -/

/-- A row of `_installation`; its `id` is always 1. -/
structure ClaimRow where
  installationId : List Char
  claimedAt : Stamp
  milhouseVersion : List Char
  deriving DecidableEq, Repr

/-- How far a destination was migrated. -/
inductive Provision
  | absent
  /-- The database exists, without `_installation`. -/
  | unmigrated
  /-- `_installation` holds the rows, in the order of the inserts. -/
  | migrated (rows : List ClaimRow)
  deriving DecidableEq

structure Destination where
  provision : Provision
  /-- The installations that `require_owner` has let through. -/
  passed : List (List Char)
  deriving DecidableEq

/-- `ReplacingMergeTree(claimed_at)`: a row supersedes those dated no later. -/
def newer : Option ClaimRow → ClaimRow → Option ClaimRow
  | none, row => some row
  | some last, row => if last.claimedAt ≤ row.claimedAt then some row else some last

/-- The row a `FINAL` read returns. -/
def final (rows : List ClaimRow) : Option ClaimRow := rows.foldl newer none

namespace Destination

def database (d : Destination) : Bool := d.provision ≠ .absent

/-- The rows of `_installation`; `none` where there is no such table. -/
def claims (d : Destination) : Option (List ClaimRow) :=
  match d.provision with
  | .migrated rows => some rows
  | _ => none

def rows (d : Destination) : List ClaimRow := d.claims.getD []

/-- Who owns the destination, as `read_owner` reads it: an empty id owns nothing. -/
def owner (d : Destination) : Option (List Char) :=
  ((final d.rows).map ClaimRow.installationId).filter (· ≠ [])

/-- A row is inserted, where the table is there. -/
def insert (d : Destination) (row : ClaimRow) : Destination :=
  match d.provision with
  | .migrated rows => { d with provision := .migrated (rows ++ [row]) }
  | _ => d

end Destination

inductive OwnerOp
  /-- `SELECT count() FROM system.databases`. -/
  | databaseExists
  /-- `SELECT count() FROM system.tables`. -/
  | tableExists
  /-- `SELECT installation_id … FINAL`. -/
  | selectOwner
  /-- `INSERT INTO _installation`. -/
  | insert (row : ClaimRow)
  /-- What the caller of `require_owner` goes on to do. -/
  | enter (installationId : List Char)
  deriving DecidableEq

/-- `none` and `false` are the `StorageError` of a failed query. -/
def OwnerOp.Resp : OwnerOp → Type
  | .databaseExists | .tableExists => Option Bool
  | .selectOwner => Option (Option (List Char))
  | .insert .. | .enter .. => Bool

def ownerSignature : Signature := ⟨OwnerOp, OwnerOp.Resp⟩

/-- The answer of a query that is let succeed, and its effect. -/
def Destination.answer (d : Destination) : (o : OwnerOp) → o.Resp × Destination
  | .databaseExists => (some d.database, d)
  | .tableExists => (some d.claims.isSome, d)
  | .selectOwner => (d.claims.map fun rows => (final rows).map ClaimRow.installationId, d)
  | .insert row => (d.claims.isSome, d.insert row)
  | .enter id => (true, { d with passed := id :: d.passed })

/-- The answer of a query that fails. -/
def OwnerOp.failure : (o : OwnerOp) → o.Resp
  | .databaseExists | .tableExists | .selectOwner => none
  | .insert .. | .enter .. => false

inductive OwnerFault
  | ok
  /-- The query fails without an effect. -/
  | fail
  /-- The query takes effect, and its answer is lost. -/
  | lost
  deriving DecidableEq

def ownerHandler : Handler ownerSignature Destination OwnerFault where
  perform
    | d, o, .ok => some (d.answer o)
    | d, o, .fail => some (o.failure, d)
    | d, .insert row, .lost => some (false, (d.answer (.insert row)).2)
    | _, _, .lost => none

/-! ## The calls -/

abbrev OwnerProg (α : Type) := Prog ownerSignature (Except StorageError α)

def queryFailed : StorageError := ⟨"MH_STORAGE_CLIENT", "a ClickHouse query failed"⟩
def claimFailed : StorageError := ⟨"MH_STORAGE_CLIENT", "a ClickHouse command failed"⟩

/-- Read the answer of a query, or raise. -/
def answered {α β : Type} (f : α → OwnerProg β) : Option α → OwnerProg β
  | some value => f value
  | none => .ret (.error queryFailed)

/-- `_validate_database`. -/
def validateDatabase (database : List Char) : OwnerProg Unit :=
  if isIdentifier database then .ret (.ok ())
  else .ret (.error (ownershipFail "a bounded ClickHouse database identifier is required"))

/-- `_validate_installation_id`. -/
def validateInstallationId (installationId : List Char) : OwnerProg Unit :=
  if isInstallationId installationId then .ret (.ok ())
  else .ret (.error (ownershipFail "a valid installation id is required"))

/-- The queries of `read_owner`. -/
def queryOwner : OwnerProg (Option (List Char)) :=
  .op .databaseExists <| answered fun present =>
    if present then
      .op .tableExists <| answered fun present =>
        if present then
          .op .selectOwner <| answered fun row => .ret (.ok (row.filter (· ≠ [])))
        else .ret (.ok none)
    else .ret (.ok none)

/-- `read_owner`. -/
def readOwner (database : List Char) : OwnerProg (Option (List Char)) :=
  (validateDatabase database).andThen fun _ => queryOwner

/-- The insert of `claim`; `none` is an instant that is naive or out of range. -/
def insertClaim (installationId : List Char) (now : Option Instant)
    (milhouseVersion : List Char) : OwnerProg Unit :=
  match now with
  | none => .ret (.error
      (ownershipFail "the ownership timestamp must be an aware in-range UTC instant"))
  | some now => .op (.insert ⟨installationId, formatTimestamp now, milhouseVersion⟩)
      fun (inserted : Bool) => if inserted then .ret (.ok ()) else .ret (.error claimFailed)

/-- `claim`. -/
def claim (database installationId : List Char) (now : Option Instant)
    (milhouseVersion : List Char) (reclaim : Bool) : OwnerProg Unit :=
  (validateDatabase database).andThen fun _ =>
    (validateInstallationId installationId).andThen fun _ =>
      (readOwner database).andThen fun
        | none => insertClaim installationId now milhouseVersion
        | some current =>
            if current = installationId then .ret (.ok ())
            else if reclaim then insertClaim installationId now milhouseVersion
            else .ret (.error otherOwner)

/-- `require_owner`. -/
def requireOwner (database installationId : List Char) : OwnerProg Unit :=
  (validateDatabase database).andThen fun _ =>
    (validateInstallationId installationId).andThen fun _ =>
      (readOwner database).andThen fun
        | none => .ret (.error unclaimed)
        | some owner =>
            if owner = installationId then .ret (.ok ()) else .ret (.error otherOwner)

/-- What an installation does with the destination. -/
inductive Request
  | claim (database installationId : List Char) (now : Option Instant)
      (milhouseVersion : List Char) (reclaim : Bool)
  /-- `require_owner`, and the operation it guards. -/
  | require (database installationId : List Char)

def Request.reclaims : Request → Bool
  | .claim _ _ _ _ reclaim => reclaim
  | .require .. => false

def Request.prog : Request → Prog ownerSignature Unit
  | .claim database id now version reclaim =>
      bind (m := Prog ownerSignature) (Ownership.claim database id now version reclaim) fun _ => .ret ()
  | .require database id =>
      bind (m := Prog ownerSignature) (requireOwner database id) fun
        | .ok _ => .op (.enter id) fun _ => .ret ()
        | .error _ => .ret ()

/-- The calls of any number of installations on one destination. -/
def destinationSystem (d : Destination) :
    System (Pool ownerSignature Destination Request) (Pool.Move Request OwnerFault) :=
  Pool.system ownerHandler Request.prog d

/-! ## The owner -/

section Owner

variable {d : Destination} {row : ClaimRow}

/-- One more row competes with the winner of the rows before it. -/
theorem final_concat (rows : List ClaimRow) (row : ClaimRow) :
    final (rows ++ [row]) = newer (final rows) row := by
  unfold final
  rw [List.foldl_append]
  rfl

/-- The later of two rows wins, and of equal ones the last inserted. -/
theorem newer_some (last row : ClaimRow) :
    newer (some last) row = if last.claimedAt ≤ row.claimedAt then some row else some last := rfl

/-- The row of the greatest `claimed_at` is one of the rows, and none is dated later. -/
theorem final_spec (rows : List ClaimRow) :
    (final rows = none ↔ rows = []) ∧
      ∀ last, final rows = some last → last ∈ rows ∧ ∀ row ∈ rows, row.claimedAt ≤ last.claimedAt := by
  induction rows using List.reverseRecOn with
  | nil => exact ⟨⟨fun _ => rfl, fun _ => rfl⟩, nofun⟩
  | append_singleton rows row ih =>
      obtain ⟨hnone, hlast⟩ := ih
      rw [final_concat]
      cases hfinal : final rows with
      | none =>
          have hrows := hnone.mp hfinal
          subst hrows
          refine ⟨⟨nofun, nofun⟩, fun last h => ?_⟩
          cases h
          exact ⟨List.mem_singleton_self _, fun r hr => by rw [List.mem_singleton.mp hr]⟩
      | some best =>
          obtain ⟨hmem, hmax⟩ := hlast best hfinal
          rw [newer_some]
          by_cases hle : best.claimedAt ≤ row.claimedAt
          · rw [if_pos hle]
            refine ⟨⟨nofun, by simp⟩, fun last h => ?_⟩
            cases h
            refine ⟨by simp, fun r hr => ?_⟩
            rcases List.mem_append.mp hr with hold | hnew
            · exact Nat.le_trans (hmax r hold) hle
            · rw [List.mem_singleton.mp hnew]
          · rw [if_neg hle]
            refine ⟨⟨nofun, by simp⟩, fun last h => ?_⟩
            cases h
            refine ⟨List.mem_append_left _ hmem, fun r hr => ?_⟩
            rcases List.mem_append.mp hr with hold | hnew
            · exact hmax r hold
            · rw [List.mem_singleton.mp hnew]
              exact Nat.le_of_not_le hle

/-- A claim is inserted where the table exists and changes nothing else. -/
theorem Destination.insert_cases (d : Destination) (row : ClaimRow) :
    (d.claims = none ∧ d.insert row = d) ∨
      (d.claims.isSome ∧ (d.insert row).rows = d.rows ++ [row] ∧
        (d.insert row).passed = d.passed ∧ (d.insert row).database = d.database) := by
  obtain ⟨provision, passed⟩ := d
  cases provision with
  | migrated rows => exact Or.inr ⟨rfl, rfl, rfl, rfl⟩
  | _ => exact Or.inl ⟨rfl, rfl⟩

theorem Destination.insert_passed : (d.insert row).passed = d.passed := by
  rcases d.insert_cases row with ⟨-, hsame⟩ | ⟨-, -, hpassed, -⟩
  · rw [hsame]
  · exact hpassed

/-- The insert of a row takes the destination from another installation. -/
def Destination.displaces (d : Destination) (row : ClaimRow) : Bool :=
  (final d.rows).any fun last =>
    last.installationId ≠ row.installationId && last.claimedAt ≤ row.claimedAt

/-- An insert that displaces nothing keeps the owner. -/
theorem owner_insert {id : List Char} (h : d.displaces row = false) (howner : d.owner = some id) :
    (d.insert row).owner = some id := by
  rcases d.insert_cases row with ⟨-, hsame⟩ | ⟨-, hrows, -, -⟩
  · rw [hsame]
    exact howner
  · unfold Destination.owner at howner ⊢
    rw [hrows, final_concat]
    cases hfinal : final d.rows with
    | none =>
        rw [hfinal] at howner
        cases howner
    | some last =>
        rw [hfinal] at howner
        rw [newer_some]
        by_cases hle : last.claimedAt ≤ row.claimedAt
        · rw [if_pos hle]
          unfold Destination.displaces at h
          rw [hfinal] at h
          have hsame : last.installationId = row.installationId := by simpa [hle] using h
          rw [← howner]
          show Option.filter _ (some row.installationId) = _
          rw [← hsame]
          rfl
        · rw [if_neg hle]
          exact howner

end Owner

/-! ## Where no insert displaces an owner -/

/-- The move is no insert that takes the destination from another installation. -/
def Undisplaced (w : Pool ownerSignature Destination Request) :
    Pool.Move Request OwnerFault → Prop
  | .run i _ => ∀ p row k, w.procs.lookup i = some p → p.prog = .op (.insert row) k →
      w.store.displaces row = false
  | _ => True

/-- The environment in which an insert that displaces an owner does not happen. -/
def fencedHandler : Handler ownerSignature Destination OwnerFault where
  perform
    | d, .insert row, c =>
        if d.displaces row then none else ownerHandler.perform d (.insert row) c
    | d, o, c => ownerHandler.perform d o c

/-- Only owners have been let through. -/
def PassedOwn (d : Destination) : Prop := ∀ id ∈ d.passed, d.owner = some id

/-- An owner stays. -/
def OwnerStays (d d' : Destination) : Prop :=
  PassedOwn d' ∧ ∀ id, d.owner = some id → d'.owner = some id

section Fenced

variable {d d' : Destination}

theorem OwnerStays.refl (h : PassedOwn d) : OwnerStays d d := ⟨h, fun _ => id⟩

/-- An owner that stays over two stretches stays over both. -/
theorem OwnerStays.trans {a b c : Destination} (h : OwnerStays a b) (h' : OwnerStays b c) :
    OwnerStays a c :=
  ⟨h'.1, fun id hid => h'.2 id (h.2 id hid)⟩

/-- A query other than the entry of an installation keeps the owner. -/
theorem fenced_stays {o : OwnerOp} {c : OwnerFault} {r : o.Resp}
    (ho : ∀ id, o ≠ .enter id) (h : PassedOwn d)
    (hstep : fencedHandler.perform d o c = some (r, d')) : OwnerStays d d' := by
  have hsame : d' = d → OwnerStays d d' := by
    rintro rfl
    exact .refl h
  cases o with
  | enter id => exact absurd rfl (ho id)
  | insert row =>
      have hstep : (if d.displaces row then none else ownerHandler.perform d (.insert row) c) =
          some (r, d') := hstep
      split at hstep
      · cases hstep
      · rename_i hfence
        have hinsert : OwnerStays d (d.insert row) :=
          ⟨fun id hid => owner_insert (Bool.eq_false_iff.mpr hfence)
              (h id (Destination.insert_passed ▸ hid)),
            fun id hid => owner_insert (Bool.eq_false_iff.mpr hfence) hid⟩
        cases c with
        | ok =>
            cases hstep
            exact hinsert
        | fail => exact hsame (Prod.mk.inj (Option.some.inj hstep)).2.symm
        | lost =>
            cases hstep
            exact hinsert
  | databaseExists | tableExists | selectOwner =>
      cases c with
      | lost => cases hstep
      | _ => exact hsame (Prod.mk.inj (Option.some.inj hstep)).2.symm

/-- A program that does not enter is safe. -/
theorem safe_of_only {α : Type} {p : Prog ownerSignature α}
    (hp : p.Only fun o => ∀ id, o ≠ OwnerOp.enter id) (h : PassedOwn d) :
    p.Safe fencedHandler OwnerStays OwnerStays (fun _ d => PassedOwn d) d := by
  apply Prog.Safe.of_only hp
  · exact fun d d' _ hR => hR.1
  · intro d o c r d' ho hI hstep
    have hstays := fenced_stays ho hI hstep
    exact ⟨hstays, hstays.1⟩
  · exact h

theorem only_answered {α β : Type} {P : OwnerOp → Prop} {f : α → OwnerProg β} {r : Option α}
    (hf : ∀ a, (f a).Only P) : (answered f r).Only P := by
  cases r with
  | none => trivial
  | some a => exact hf a

theorem only_queryOwner : queryOwner.Only fun o => ∀ id, o ≠ OwnerOp.enter id := by
  refine ⟨nofun, fun r => only_answered fun present => ?_⟩
  split
  · refine ⟨nofun, fun r => only_answered fun present => ?_⟩
    split
    · exact ⟨nofun, fun r => only_answered fun row => trivial⟩
    · trivial
  · trivial

theorem only_andThen {α β : Type} {P : OwnerOp → Prop} {p : OwnerProg α} {f : α → OwnerProg β}
    (hp : p.Only P) (hf : ∀ a, (f a).Only P) : (p.andThen f).Only P := by
  refine Prog.Only.bind hp fun r => ?_
  cases r with
  | error e => trivial
  | ok a => exact hf a

theorem only_validateDatabase {P : OwnerOp → Prop} {database : List Char} :
    (validateDatabase database).Only P := by
  unfold validateDatabase
  split <;> trivial

theorem only_validateInstallationId {P : OwnerOp → Prop} {id : List Char} :
    (validateInstallationId id).Only P := by
  unfold validateInstallationId
  split <;> trivial

theorem only_insertClaim {id : List Char} {now : Option Instant} {version : List Char} :
    (insertClaim id now version).Only fun o => ∀ id, o ≠ OwnerOp.enter id := by
  unfold insertClaim
  split
  · trivial
  · refine ⟨nofun, fun (inserted : Bool) => ?_⟩
    show Prog.Only _ (if inserted then _ else _)
    split <;> trivial

/-- A claim never lets anyone through. -/
theorem only_claim {database id : List Char} {now : Option Instant} {version : List Char}
    {reclaim : Bool} :
    (claim database id now version reclaim).Only fun o => ∀ id, o ≠ OwnerOp.enter id := by
  refine only_andThen only_validateDatabase fun _ =>
    only_andThen only_validateInstallationId fun _ =>
      only_andThen (only_andThen only_validateDatabase fun _ => only_queryOwner) fun owner => ?_
  cases owner with
  | none => exact only_insertClaim
  | some current =>
      show Prog.Only _ (if current = id then _ else _)
      split
      · trivial
      · split
        · exact only_insertClaim
        · trivial

/-- What `read_owner` returns owns the destination from the moment it is read. -/
theorem safe_queryOwner :
    queryOwner.Safe fencedHandler OwnerStays OwnerStays
      (fun r d => PassedOwn d ∧ ∀ id, r = .ok (some id) → d.owner = some id) d := by
  -- The queries of the owner change nothing, so the owner stays through each of them.
  have hread : ∀ {d₁ d' : Destination} {o : OwnerOp} {c : OwnerFault} {r : o.Resp},
      (o = .databaseExists ∨ o = .tableExists ∨ o = .selectOwner) → PassedOwn d₁ →
      fencedHandler.perform d₁ o c = some (r, d') → OwnerStays d₁ d' := by
    rintro d₁ d' o c r ho hI hstep
    apply fenced_stays _ hI hstep
    rcases ho with rfl | rfl | rfl <;> exact nofun
  intro d₁ hR₁ c r d' hstep
  have hstays := hread (Or.inl rfl) hR₁.1 hstep
  refine ⟨hstays, ?_⟩
  cases r with
  | none => exact ⟨hstays.1, nofun⟩
  | some present =>
      cases present with
      | false => exact ⟨hstays.1, nofun⟩
      | true =>
          intro d₂ hR₂ c r d' hstep
          have hstays := hread (Or.inr (Or.inl rfl)) hR₂.1 hstep
          refine ⟨hstays, ?_⟩
          cases r with
          | none => exact ⟨hstays.1, nofun⟩
          | some present =>
              cases present with
              | false => exact ⟨hstays.1, nofun⟩
              | true =>
                  intro d₃ hR₃ c r d' hstep
                  have hstays := hread (Or.inr (Or.inr rfl)) hR₃.1 hstep
                  refine ⟨hstays, ?_⟩
                  cases r with
                  | none => exact ⟨hstays.1, nofun⟩
                  | some row =>
                      refine ⟨hstays.1, fun id hid => ?_⟩
                      have hrow : row.filter (· ≠ []) = some id :=
                        Except.ok.inj (show (Except.ok (row.filter (· ≠ [])) :
                          Except StorageError _) = .ok (some id) from hid)
                      -- The owner that was selected is the owner after the call too.
                      apply hstays.2
                      cases c with
                      | ok =>
                          have hanswer : (d₃.claims.map fun rows =>
                              (final rows).map ClaimRow.installationId) = some row :=
                            (Prod.mk.inj (Option.some.inj hstep)).1
                          obtain ⟨rows, hrows, rfl⟩ := Option.map_eq_some_iff.mp hanswer
                          unfold Destination.owner Destination.rows
                          rw [hrows]
                          exact hrow
                      | fail => cases (Prod.mk.inj (Option.some.inj hstep)).1
                      | lost => cases hstep

/-- `require_owner` lets an installation through only while it owns the destination. -/
theorem safe_requireOwner {database id : List Char} (h : PassedOwn d) :
    (requireOwner database id).Safe fencedHandler OwnerStays OwnerStays
      (fun r d => PassedOwn d ∧ (r = .ok () → d.owner = some id)) d := by
  unfold requireOwner validateDatabase
  split
  · unfold validateInstallationId
    split
    · show (Prog.andThen (readOwner database) _).Safe _ _ _ _ _
      unfold readOwner validateDatabase
      rw [if_pos (by assumption)]
      refine Prog.Safe.seq safe_queryOwner ?_
      rintro (e | owner) d' ⟨hpassed, howner⟩
      · exact ⟨hpassed, nofun⟩
      · cases owner with
        | none => exact ⟨hpassed, nofun⟩
        | some current =>
            show (if current = id then _ else _ : OwnerProg Unit).Safe _ _ _ _ _
            split
            · rename_i hsame
              exact ⟨hpassed, fun _ => hsame ▸ howner current rfl⟩
            · exact ⟨hpassed, nofun⟩
    · exact ⟨h, nofun⟩
  · exact ⟨h, nofun⟩

/-- Every request is safe where no insert displaces an owner. -/
theorem safe_request (request : Request) (h : PassedOwn d) :
    request.prog.Safe fencedHandler OwnerStays OwnerStays (fun _ _ => True) d := by
  cases request with
  | claim database id now version reclaim =>
      exact Prog.Safe.seq (safe_of_only only_claim h) fun _ _ _ => trivial
  | require database id =>
      refine Prog.Safe.seq (safe_requireOwner h) ?_
      rintro (e | ⟨⟩) d' ⟨hpassed, howner⟩
      · trivial
      · intro d₁ hR c r d' hstep
        have howner₁ := hR.2 id (howner rfl)
        refine ⟨?_, trivial⟩
        cases c with
        | ok =>
            cases hstep
            refine ⟨fun other hother => ?_, fun other hother => hother⟩
            rcases List.mem_cons.mp hother with rfl | hold
            · exact howner₁
            · exact hR.1 other hold
        | fail =>
            cases hstep
            exact .refl hR.1
        | lost => cases hstep

/-- A run without a displacing insert is a run of the fenced environment. -/
theorem run_fenced {tr : List (Pool.Move Request OwnerFault)}
    {w : Pool ownerSignature Destination Request}
    (hrun : Run ((destinationSystem d).guard Undisplaced) tr w) :
    Run (Pool.system fencedHandler Request.prog d) tr w := by
  induction hrun with
  | start hinit => exact .start hinit
  | @snoc tr w w' m _ hstep ih =>
      refine ih.snoc (l := m) ?_
      obtain ⟨hguard, hstep⟩ := hstep
      show Pool.step fencedHandler Request.prog w m = some w'
      have hstep : Pool.step ownerHandler Request.prog w m = some w' := hstep
      cases m with
      | run i c =>
          obtain ⟨p, hlookup, hperform⟩ := Option.bind_eq_some_iff.mp hstep
          refine Option.bind_eq_some_iff.mpr ⟨p, hlookup, ?_⟩
          unfold Pool.perform at hperform ⊢
          split at hperform
          · cases hperform
          · rename_i o k hprog
            show Option.map _ (fencedHandler.perform w.store o c) = _
            have hsame : fencedHandler.perform w.store o c =
                ownerHandler.perform w.store o c := by
              cases o with
              | insert row =>
                  show (if w.store.displaces row then none else _) = _
                  rw [hguard p row k hlookup hprog]
                  rfl
              | _ => rfl
            rw [hsame]
            exact hperform
      | _ => exact hstep

/-- Only owners are let through. -/
theorem passed_own {tr : List (Pool.Move Request OwnerFault)}
    {w : Pool ownerSignature Destination Request} (h : d.passed = [])
    (hrun : Run ((destinationSystem d).guard Undisplaced) tr w) : PassedOwn w.store := by
  apply Pool.invariant (I := PassedOwn) (R := OwnerStays) _ _ _ _ _ (run_fenced hrun)
  · exact fun d d' hR => hR.1
  · exact fun d hd => .refl hd
  · exact fun a b c => OwnerStays.trans
  · exact fun request d hd => safe_request request hd
  · intro id hid
    rw [h] at hid
    cases hid

end Fenced

/-! ## A claim on its own -/

section Alone

variable {d d' : Destination} {database id version : List Char} {now : Option Instant}

/-- A program that runs alone. -/
def Alone {α : Type} (p : OwnerProg α) (Q : Except StorageError α → Destination → Prop)
    (d : Destination) : Prop :=
  p.Safe ownerHandler Eq (fun _ _ => True) Q d

/-- A read query answers what the destination is, or raises. -/
theorem alone_answered {α β : Type} {f : α → OwnerProg β} {a : α} {r : Option α}
    {Q : Except StorageError β → Destination → Prop} (hr : r = some a ∨ r = none)
    (hok : Alone (f a) Q d) (herror : ∀ e, Q (.error e) d) : Alone (answered f r) Q d := by
  rcases hr with rfl | rfl
  · exact hok
  · exact herror _

/-- A destination without a table has no owner. -/
theorem owner_of_no_claims (h : d.claims = none) : d.owner = none := by
  unfold Destination.owner Destination.rows
  rw [h]
  rfl

/-- Alone, `read_owner` returns the owner. -/
theorem alone_queryOwner :
    Alone queryOwner (fun r d' => d' = d ∧ ∀ owner, r = .ok owner → owner = d.owner) d := by
  rintro d₁ rfl c r d' hstep
  -- None of the three queries changes the destination, and each is answered or fails.
  have hfirst : d' = d ∧ (r = some d.database ∨ r = none) := by
    cases c with
    | ok =>
        cases hstep
        exact ⟨rfl, Or.inl rfl⟩
    | fail =>
        cases hstep
        exact ⟨rfl, Or.inr rfl⟩
    | lost => cases hstep
  obtain ⟨rfl, hr⟩ := hfirst
  refine ⟨trivial, alone_answered hr ?_ fun e => ⟨rfl, nofun⟩⟩
  by_cases hdatabase : d'.database = true
  · rw [if_pos hdatabase]
    rintro d₁ rfl c r₁ d₂ hstep
    -- The database is there, so the second query asks for the table.
    have hsecond : d₂ = d' ∧ (r₁ = some d'.claims.isSome ∨ r₁ = none) := by
      cases c with
      | ok =>
          cases hstep
          exact ⟨rfl, Or.inl rfl⟩
      | fail =>
          cases hstep
          exact ⟨rfl, Or.inr rfl⟩
      | lost => cases hstep
    obtain ⟨rfl, hr₁⟩ := hsecond
    refine ⟨trivial, alone_answered hr₁ ?_ fun e => ⟨rfl, nofun⟩⟩
    cases hclaims : d₂.claims with
    | none =>
        refine ⟨rfl, fun owner howner => ?_⟩
        cases howner
        exact (owner_of_no_claims hclaims).symm
    | some rows =>
        rintro d₁ rfl c r₂ d₃ hstep
        -- The table is there, so the last query answers with its final rows.
        have hthird : d₃ = d₂ ∧
            (r₂ = some ((final rows).map ClaimRow.installationId) ∨ r₂ = none) := by
          cases c with
          | ok =>
              have hanswer := Option.some.inj hstep
              rw [show d₂.answer .selectOwner = (d₂.claims.map fun rows =>
                (final rows).map ClaimRow.installationId, d₂) from rfl, hclaims] at hanswer
              cases hanswer
              exact ⟨rfl, Or.inl rfl⟩
          | fail =>
              cases hstep
              exact ⟨rfl, Or.inr rfl⟩
          | lost => cases hstep
        obtain ⟨rfl, hr₂⟩ := hthird
        refine ⟨trivial, alone_answered hr₂ ⟨rfl, fun owner howner => ?_⟩ fun e => ⟨rfl, nofun⟩⟩
        cases howner
        unfold Destination.owner Destination.rows
        rw [hclaims]
        rfl
  · rw [if_neg hdatabase]
    refine ⟨rfl, fun owner howner => ?_⟩
    cases howner
    refine (owner_of_no_claims ?_).symm
    obtain ⟨provision, passed⟩ := d'
    cases provision with
    | absent => rfl
    | unmigrated => rfl
    | migrated rows => exact absurd rfl hdatabase

/-- Without faults `read_owner` returns the owner. -/
theorem eval_readOwner (h : isIdentifier database = true) :
    (readOwner database).eval Destination.answer d = (.ok d.owner, d) := by
  unfold readOwner validateDatabase
  rw [if_pos h]
  obtain ⟨provision, passed⟩ := d
  cases provision <;> rfl

/-- What a claim that returned has done: the installation owned the destination already, or its row
was inserted. -/
theorem alone_claim {reclaim : Bool} :
    Alone (claim database id now version reclaim) (fun r d' => r = .ok () →
      isIdentifier database = true ∧ isInstallationId id = true ∧
      ((d.owner = some id ∧ d' = d) ∨ (d.owner ≠ some id ∧ d.claims.isSome ∧
        ∃ instant, now = some instant ∧
          d' = d.insert ⟨id, formatTimestamp instant, version⟩))) d := by
  unfold claim validateDatabase
  split
  · rename_i hdatabase
    unfold validateInstallationId
    split
    · rename_i hid
      show (Prog.andThen (readOwner database) _).Safe _ _ _ _ _
      unfold readOwner validateDatabase
      rw [if_pos hdatabase]
      -- Whether it was asked for or needed, an insert ends the claim in the same way.
      have hinsert : d.owner ≠ some id → Alone (insertClaim id now version) (fun r d' => r = .ok () →
          isIdentifier database = true ∧ isInstallationId id = true ∧
          ((d.owner = some id ∧ d' = d) ∨ (d.owner ≠ some id ∧ d.claims.isSome ∧
            ∃ instant, now = some instant ∧
              d' = d.insert ⟨id, formatTimestamp instant, version⟩))) d := by
        intro hother
        unfold insertClaim
        cases now with
        | none => exact nofun
        | some instant =>
            rintro d₁ rfl c r d' hstep
            refine ⟨trivial, ?_⟩
            cases c with
            | ok =>
                cases hstep
                show Prog.Safe _ _ _ (if d.claims.isSome then _ else _ : OwnerProg Unit) _ _
                split
                · rename_i hclaims
                  exact fun _ =>
                    ⟨hdatabase, hid, Or.inr ⟨hother, hclaims, instant, rfl, rfl⟩⟩
                · exact nofun
            | fail =>
                cases hstep
                exact nofun
            | lost =>
                cases hstep
                exact nofun
      -- The owner that was read is the owner still, since nobody else writes.
      refine Prog.Safe.seq alone_queryOwner ?_
      rintro (e | owner) d' ⟨rfl, howner⟩
      · exact nofun
      · have howner := howner owner rfl
        cases owner with
        | none => exact hinsert (by rw [← howner]; exact nofun)
        | some current =>
            show Prog.Safe _ _ _ (if current = id then _ else _ : OwnerProg Unit) _ _
            split
            -- The destination is ours already, and nothing is written.
            · rename_i hsame
              subst hsame
              exact fun _ => ⟨hdatabase, hid, Or.inl ⟨howner.symm, rfl⟩⟩
            · rename_i hother
              split
              · apply hinsert
                rw [← howner]
                exact fun h => hother (Option.some.inj h)
              · exact nofun
    · exact nofun
  · exact nofun

/-- Who owns the destination after an insert. -/
theorem owner_insert_iff {row : ClaimRow} (hclaims : d.claims.isSome)
    (hid : row.installationId ≠ []) (hother : d.owner ≠ some row.installationId) :
    (d.insert row).owner = some row.installationId ↔ ∀ r ∈ d.rows, r.claimedAt ≤ row.claimedAt := by
  obtain ⟨hnone, -⟩ | ⟨-, hrows, -, -⟩ := d.insert_cases row
  · rw [hnone] at hclaims
    cases hclaims
  · unfold Destination.owner at hother ⊢
    rw [hrows, final_concat]
    have hkept : Option.filter (· ≠ []) (some row.installationId) = some row.installationId := by
      simp [Option.filter, hid]
    cases hfinal : final d.rows with
    | none =>
        have hempty := (final_spec d.rows).1.mp hfinal
        rw [hempty]
        exact ⟨fun _ => nofun, fun _ => hkept⟩
    | some last =>
        rw [hfinal] at hother
        obtain ⟨hmem, hmax⟩ := (final_spec d.rows).2 last hfinal
        rw [newer_some]
        by_cases hle : last.claimedAt ≤ row.claimedAt
        · rw [if_pos hle]
          exact ⟨fun _ r hr => Nat.le_trans (hmax r hr) hle, fun _ => hkept⟩
        · rw [if_neg hle]
          exact ⟨fun h => absurd h hother, fun h => absurd (h last hmem) hle⟩

/-- **When a reclaim takes the destination over**: a reclaiming claim that returned with no other
claim beside it is read back as the owner exactly where the installation owned the destination
already or no recorded claim is dated later. -/
theorem reclaim_reads_back_iff {tape : List OwnerFault}
    (hplay : (claim database id now version true).play ownerHandler d tape =
      some (.ret (.ok ()), d')) :
    (readOwner database).eval Destination.answer d' = (.ok (some id), d') ↔
      d.owner = some id ∨
        ∀ instant, now = some instant → ∀ row ∈ d.rows, row.claimedAt ≤ formatTimestamp instant := by
  obtain ⟨-, hpost⟩ := Prog.Safe.play (fun _ => rfl) (fun _ => trivial) (fun _ _ _ _ _ => trivial)
    (alone_claim (d := d)) hplay
  obtain ⟨hdatabase, hid, hdone⟩ := hpost (.ok ()) rfl rfl
  have hread : (readOwner database).eval Destination.answer d' = (.ok (some id), d') ↔
      d'.owner = some id := by
    rw [eval_readOwner hdatabase]
    simp
  rw [hread]
  have hne : id ≠ [] := by
    rintro rfl
    cases hid
  rcases hdone with ⟨howner, rfl⟩ | ⟨hother, hclaims, instant, rfl, rfl⟩
  · exact ⟨fun _ => Or.inl howner, fun _ => howner⟩
  · rw [@owner_insert_iff _ ⟨id, formatTimestamp instant, version⟩ hclaims hne hother]
    constructor
    · intro h
      exact Or.inr fun i hi => Option.some.inj hi ▸ h
    · rintro (h | h)
      · exact absurd h hother
      · exact h instant rfl

end Alone

/-- **One owner per destination, and a reclaim that takes effect**: in every run none of whose
inserts displaces an owner, at most one installation is ever let through; and a reclaiming claim that
returned alone is read back exactly where it had the destination already or is dated no earlier than
any recorded claim. -/
theorem one_owner_iff (d : Destination) :
    (∀ (tr : List (Pool.Move Request OwnerFault)) (w : Pool ownerSignature Destination Request),
      d.passed = [] → Run ((destinationSystem d).guard Undisplaced) tr w →
      ∀ a ∈ w.store.passed, ∀ b ∈ w.store.passed, a = b) ∧
    ∀ (d' : Destination) (database id version : List Char) (now : Option Instant)
      (tape : List OwnerFault),
      (claim database id now version true).play ownerHandler d tape = some (.ret (.ok ()), d') →
      ((readOwner database).eval Destination.answer d' = (.ok (some id), d') ↔
        d.owner = some id ∨
          ∀ instant, now = some instant →
            ∀ row ∈ d.rows, row.claimedAt ≤ formatTimestamp instant) := by
  refine ⟨fun tr w hpassed hrun a ha b hb => ?_, fun d' database id version now tape =>
    reclaim_reads_back_iff⟩
  have hown := passed_own hpassed hrun
  exact Option.some.inj ((hown a ha).symm.trans (hown b hb))

/-! ## A race, and a clock that is behind -/

/-- An installation id. -/
def sampleId (c : Char) : List Char := "mh_in1_".toList ++ List.replicate 32 c

/-- A migrated destination that nobody has claimed. -/
def sampleDestination : Destination := ⟨.migrated [], []⟩

def sampleClaim (c : Char) (now : Instant) (reclaim : Bool) : Request :=
  .claim ['d'] (sampleId c) (some now) ['1'] reclaim

def sampleNow : Instant := ⟨20000, by decide⟩
def sampleEarlier : Instant := ⟨10000, by decide⟩

/-- The destination of installation `a`, claimed at a later reading than another host's clock. -/
def sampleClaimed : Destination := ⟨.migrated [⟨sampleId 'a', 20, ['1']⟩], []⟩

/-- Two installations read an unclaimed destination; each inserts its claim and is let through. -/
def sampleRaceMoves : List (Pool.Move Request OwnerFault) :=
  [.start 0 (sampleClaim 'a' sampleNow false), .start 1 (sampleClaim 'b' sampleNow false)] ++
    List.replicate 3 (.run 0 .ok) ++ List.replicate 3 (.run 1 .ok) ++
    [.run 0 .ok, .start 2 (.require ['d'] (sampleId 'a'))] ++ List.replicate 4 (.run 2 .ok) ++
    [.run 1 .ok, .start 3 (.require ['d'] (sampleId 'b'))] ++ List.replicate 4 (.run 3 .ok)

/-- The call a move starts. -/
def startedRequest : Pool.Move Request OwnerFault → Option Request
  | .start _ request => some request
  | _ => none

/-- Without a reclaim two installations are let through, and a reclaim by a host whose clock is
behind is not read back. -/
theorem two_owners_let_through :
    (∃ w, Run (destinationSystem sampleDestination) sampleRaceMoves w ∧
      sampleId 'a' ∈ w.store.passed ∧ sampleId 'b' ∈ w.store.passed) ∧
    (∀ request ∈ sampleRaceMoves.filterMap startedRequest, request.reclaims = false) ∧
    sampleId 'a' ≠ sampleId 'b' ∧
    ∃ d' tape, (claim ['d'] (sampleId 'b') (some sampleEarlier) ['1'] true).play ownerHandler
        sampleClaimed tape = some (.ret (.ok ()), d') ∧
      (readOwner ['d']).eval Destination.answer d' ≠ (.ok (some (sampleId 'b')), d') := by
  refine ⟨exists_run_of_exec (by decide), by decide, by decide, _, List.replicate 4 .ok, rfl, ?_⟩
  rw [eval_readOwner (by decide)]
  decide

/-- A reclaim by a host whose clock is ahead is read back. -/
theorem one_owner_iff_reclaim :
    (readOwner ['d']).eval Destination.answer
        ⟨.migrated [⟨sampleId 'a', 20, ['1']⟩, ⟨sampleId 'b', 20, ['1']⟩], []⟩ =
      (.ok (some (sampleId 'b')),
        ⟨.migrated [⟨sampleId 'a', 20, ['1']⟩, ⟨sampleId 'b', 20, ['1']⟩], []⟩) :=
  ((one_owner_iff sampleClaimed).2 _ ['d'] (sampleId 'b') ['1'] (some sampleNow)
    (List.replicate 4 .ok) rfl).mpr (Or.inr (by
      intro instant h row hrow
      cases h
      rw [List.mem_singleton.mp hrow]
      decide))

end Ownership

end Milhouse
