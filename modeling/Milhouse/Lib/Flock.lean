import Mathlib.Data.List.AList

/-!
# Flock — the advisory reader/writer lock of a file

A lock is held per open file description, shared by any number of them or exclusively by one. A
request that conflicts with another holder is not granted; a request by a holder converts its own
lock, and the two halves of a conversion are `release` and `acquire`. Closing a description, or
the death of the processes that own some, releases what they hold.

* `Lock` carries its exclusion: an exclusive holder is the only holder;
* **`Lock.acquire_exclusive`** — who acquires exclusively is the only holder.
-/

namespace Flock

inductive Mode | shared | exclusive
  deriving DecidableEq, Repr

/-- The lock of one file: the mode in which each open file description holds it. -/
structure Lock (ι : Type) [DecidableEq ι] where
  holders : AList fun _ : ι => Mode
  exclusion : ∀ i j, i ≠ j → holders.lookup i = some .exclusive → holders.lookup j = none

namespace Lock

variable {ι : Type} [DecidableEq ι]

/-- The mode in which a description holds the lock. -/
def mode (l : Lock ι) (i : ι) : Option Mode := l.holders.lookup i

/-- Nobody holds the lock. -/
def free : Lock ι := ⟨∅, by simp⟩

/-- A request does not have to wait: every other holder shares, and so does the request. -/
def grantable (l : Lock ι) (i : ι) (m : Mode) : Bool :=
  l.holders.entries.all fun e => e.1 = i || (e.2 = .shared && m = .shared)

section Requests

variable {l l' : Lock ι} {i j : ι} {m : Mode}

theorem grantable_iff : l.grantable i m = true ↔
    ∀ j m', j ≠ i → l.mode j = some m' → m' = .shared ∧ m = .shared := by
  unfold grantable
  rw [List.all_eq_true]
  constructor
  · intro h j m' hj hm
    have hentry := h ⟨j, m'⟩ (AList.mem_lookup_iff.mp hm)
    simpa [hj] using hentry
  · rintro h ⟨j, m'⟩ hentry
    by_cases hj : j = i
    · simp [hj]
    · have hmode : l.mode j = some m' := AList.mem_lookup_iff.mpr hentry
      simpa [hj] using h j m' hj hmode

theorem exclusion_insert (h : l.grantable i m = true) (j k : ι) (hne : j ≠ k)
    (hj : (l.holders.insert i m).lookup j = some .exclusive) :
    (l.holders.insert i m).lookup k = none := by
  rw [grantable_iff] at h
  by_cases hji : j = i
  · subst hji
    rw [AList.lookup_insert] at hj
    rw [AList.lookup_insert_ne (Ne.symm hne)]
    cases hk : l.holders.lookup k with
    | none => rfl
    | some m' =>
        have hshared := (h k m' (Ne.symm hne) hk).2
        rw [hshared] at hj
        cases hj
  · rw [AList.lookup_insert_ne hji] at hj
    have hexclusive := (h j _ hji hj).1
    cases hexclusive

end Requests

/-- `flock(fd, mode | LOCK_NB)`; `none` is `EWOULDBLOCK`, where the blocking call waits. -/
def acquire (l : Lock ι) (i : ι) (m : Mode) : Option (Lock ι) :=
  if h : l.grantable i m = true then some ⟨l.holders.insert i m, exclusion_insert h⟩ else none

/-- Every description of `dead` is closed. -/
def releaseAll (l : Lock ι) (dead : ι → Bool) : Lock ι where
  holders := ⟨l.holders.entries.filter fun e => !dead e.1,
    l.holders.nodupKeys.sublist List.filter_sublist⟩
  exclusion := by
    have hold : ∀ k m, AList.lookup k (⟨l.holders.entries.filter fun e => !dead e.1,
        l.holders.nodupKeys.sublist List.filter_sublist⟩ : AList fun _ : ι => Mode) =
          some m → l.holders.lookup k = some m := by
      intro k m h
      exact AList.mem_lookup_iff.mpr (List.mem_of_mem_filter (AList.mem_lookup_iff.mp h))
    intro i j hne hi
    have hnone := l.exclusion i j hne (hold i _ hi)
    rw [Option.eq_none_iff_forall_ne_some]
    intro m hm
    rw [hold j m hm] at hnone
    cases hnone

/-- `flock(fd, LOCK_UN)`, or closing the description. -/
def release (l : Lock ι) (i : ι) : Lock ι := l.releaseAll fun j => j = i

section Modes

variable {l l' : Lock ι} {i j : ι} {m : Mode}

@[simp] theorem mode_free : (free : Lock ι).mode i = none := rfl

theorem mode_releaseAll {dead : ι → Bool} :
    (l.releaseAll dead).mode j = if dead j then none else l.mode j := by
  have hmem : ∀ m, (l.releaseAll dead).mode j = some m ↔ l.mode j = some m ∧ dead j = false := by
    intro m
    have hfilter : (⟨j, m⟩ : (_ : ι) × Mode) ∈ l.holders.entries.filter (fun e => !dead e.1) ↔
        ⟨j, m⟩ ∈ l.holders.entries ∧ dead j = false := by
      rw [List.mem_filter]
      simp
    exact AList.mem_lookup_iff.trans (hfilter.trans (and_congr_left' AList.mem_lookup_iff.symm))
  cases hdead : dead j with
  | true =>
      rw [if_pos rfl, Option.eq_none_iff_forall_ne_some]
      intro m hm
      rw [hmem, hdead] at hm
      cases hm.2
  | false =>
      rw [if_neg (by simp)]
      refine Option.ext fun m => ?_
      rw [hmem, hdead]
      simp

@[simp] theorem mode_release_self : (l.release i).mode i = none := by
  rw [release, mode_releaseAll, if_pos (by simp)]

theorem mode_release_ne (h : j ≠ i) : (l.release i).mode j = l.mode j := by
  rw [release, mode_releaseAll, if_neg (by simpa using h)]

theorem acquire_mode (h : l.acquire i m = some l') :
    l'.mode i = some m ∧ ∀ j, j ≠ i → l'.mode j = l.mode j := by
  unfold acquire at h
  split at h
  · obtain rfl := Option.some.inj h
    exact ⟨AList.lookup_insert _, fun j hj => AList.lookup_insert_ne hj⟩
  · cases h

/-- **Who acquires exclusively is the only holder.** -/
theorem acquire_exclusive (h : l.acquire i .exclusive = some l') (hj : j ≠ i) :
    l'.mode j = none :=
  l'.exclusion i j (Ne.symm hj) (acquire_mode h).1

end Modes

end Lock

end Flock
