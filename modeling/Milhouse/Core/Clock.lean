import Mathlib.Data.Nat.Basic

/-!
# Milhouse — instants and their canonical stamps

The code injects time as an aware UTC `datetime` and persists it through `format_timestamp`, the
RFC3339 text with exactly three fractional digits. That text has a fixed width and writes the most
significant field first, so two stamps compare as the millisecond counts they spell; a stamp is
modelled by that count, and a day (`stamp[:10]`) by the number of whole days in it.
-/

namespace Milhouse

/-- The first microsecond after `datetime.max`, counted from `0001-01-01T00:00:00Z`. -/
def datetimeLimit : Nat := 3652059 * 86400 * 1000000

/-- An aware instant normalised to UTC: the microseconds since `0001-01-01T00:00:00Z`. -/
structure Instant where
  micros : Nat
  inRange : micros < datetimeLimit

/-- A canonical RFC3339 millisecond stamp, as the milliseconds it spells. -/
abbrev Stamp := Nat

/-- A calendar day, the first ten characters of a stamp. -/
abbrev Day := Nat

/-- `format_timestamp`: the sub-millisecond part is truncated. -/
def formatTimestamp (value : Instant) : Stamp := value.micros / 1000

/-- `value + timedelta(seconds=…)`; `none` is the `OverflowError` past `datetime.max`. -/
def Instant.addSeconds (value : Instant) (seconds : Nat) : Option Instant :=
  if h : value.micros + seconds * 1000000 < datetimeLimit then some ⟨_, h⟩ else none

/-- The milliseconds of one day. -/
def dayMillis : Nat := 86400 * 1000

/-- `stamp[:10]`. -/
def Stamp.day (stamp : Stamp) : Day := stamp / dayMillis

theorem Instant.addSeconds_eq {value : Instant} {seconds : Nat}
    (h : value.micros + seconds * 1000000 < datetimeLimit) :
    value.addSeconds seconds = some ⟨value.micros + seconds * 1000000, h⟩ := by
  unfold Instant.addSeconds
  rw [dif_pos h]

theorem Instant.exists_addSeconds {value : Instant} {seconds : Nat} (hpos : 0 < seconds)
    (h : value.micros + seconds * 1000000 < datetimeLimit) :
    ∃ later, value.addSeconds seconds = some later ∧ value.micros < later.micros := by
  refine ⟨_, Instant.addSeconds_eq h, ?_⟩
  show value.micros < value.micros + seconds * 1000000
  omega

end Milhouse
