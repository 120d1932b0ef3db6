import Milhouse.Core.Clock
import Mathlib.Tactic.Linarith

/-!
# Milhouse — the text of a stamp

`format_timestamp` writes a stamp as the RFC3339 text of its calendar date and time with exactly
three fractional digits. Every reader of the text writes it back and compares, so the reader here
accepts the fixed-width form only.

* **`parseTimestamp_timestampText`** — the text of a stamp in range is read back;
* `length_timestampText` — it has 24 characters.
-/

namespace Milhouse

/-! ## The calendar -/

def isLeap (year : Nat) : Bool := year % 4 = 0 && (year % 100 ≠ 0 || year % 400 = 0)

def yearDays (year : Nat) : Nat := if isLeap year then 366 else 365

/-- The lengths of the months of a year. -/
def monthDays (year : Nat) : List Nat :=
  [31, if isLeap year then 29 else 28, 31, 30, 31, 30, 31, 31, 30, 31, 30, 31]

/-- The days before the first one of a year. -/
def daysBeforeYear (year : Nat) : Nat :=
  (year - 1) * 365 + (year - 1) / 4 - (year - 1) / 100 + (year - 1) / 400

/-- Take whole years off a number of days; `fuel` bounds the years taken. -/
def takeYears : Nat → Nat → Nat → Nat × Nat
  | 0, year, days => (year, days)
  | fuel + 1, year, days =>
      if days < yearDays year then (year, days)
      else takeYears fuel (year + 1) (days - yearDays year)

/-- Take whole months off a number of days. -/
def takeMonths : List Nat → Nat → Nat → Nat × Nat
  | [], month, days => (month, days)
  | length :: rest, month, days =>
      if days < length then (month, days) else takeMonths rest (month + 1) (days - length)

/-- The year and the day in it, counted from zero. -/
def Day.year (day : Day) : Nat × Nat := takeYears 9999 1 day

/-- The month and the day in it, counted from zero. -/
def Day.month (day : Day) : Nat × Nat := takeMonths (monthDays day.year.1) 1 day.year.2

/-- The stamps of `datetime`. -/
def stampLimit : Nat := 3652059 * dayMillis

/-! ## The text -/

/-- A number in at least `width` digits. -/
def pad (width n : Nat) : List Char :=
  List.replicate (width - (Nat.toDigits 10 n).length) '0' ++ Nat.toDigits 10 n

/-- `format_timestamp`, of a value that is already truncated. -/
def timestampText (stamp : Stamp) : List Char :=
  let day := stamp.day
  let time := stamp % dayMillis
  pad 4 day.year.1 ++ '-' :: (pad 2 day.month.1 ++ '-' :: (pad 2 (day.month.2 + 1) ++
    'T' :: (pad 2 (time / 3600000) ++ ':' :: (pad 2 (time / 60000 % 60) ++
    ':' :: (pad 2 (time / 1000 % 60) ++ '.' :: (pad 3 (time % 1000) ++ ['Z']))))))

/-- Read exactly `width` digits and the character after them. -/
def field (width : Nat) (stop : Char) (text : List Char) : Option (Nat × List Char) :=
  let digits := text.take width
  if digits.length = width ∧ digits.all Char.isDigit ∧ (text.drop width).head? = some stop then
    some (Nat.ofDigitChars 10 digits 0, (text.drop width).tail)
  else none

/-- `datetime.strptime(value, "%Y-%m-%dT%H:%M:%S.%fZ")` on the canonical form. -/
def parseTimestamp (text : List Char) : Option Stamp := do
  let (year, text) ← field 4 '-' text
  let (month, text) ← field 2 '-' text
  let (dayOfMonth, text) ← field 2 'T' text
  let (hour, text) ← field 2 ':' text
  let (minute, text) ← field 2 ':' text
  let (second, text) ← field 2 '.' text
  let (milli, text) ← field 3 'Z' text
  if 1 ≤ year ∧ 1 ≤ month ∧ month ≤ 12 ∧ 1 ≤ dayOfMonth ∧
      dayOfMonth ≤ (monthDays year).getD (month - 1) 0 ∧ hour < 24 ∧ minute < 60 ∧ second < 60 ∧
      text = [] then
    let days := daysBeforeYear year + ((monthDays year).take (month - 1)).sum + (dayOfMonth - 1)
    some (days * dayMillis + hour * 3600000 + minute * 60000 + second * 1000 + milli)
  else none

/-! ## Reading back -/

theorem pad_isDigit {width n : Nat} {c : Char} (h : c ∈ pad width n) : c.isDigit = true := by
  rcases List.mem_append.mp h with hzero | hdigit
  · rw [List.eq_of_mem_replicate hzero]
    decide
  · exact Nat.isDigit_of_mem_toDigits (by decide) (by decide) hdigit

/-- What the text of a stamp is made of. -/
theorem mem_timestampText {stamp : Stamp} {c : Char} (h : c ∈ timestampText stamp) :
    c.isDigit = true ∨ c ∈ ['-', 'T', ':', '.', 'Z'] := by
  have hpad : ∀ width n, c ∈ pad width n → c.isDigit = true := fun _ _ hc => pad_isDigit hc
  unfold timestampText at h
  simp only [List.mem_append, List.mem_cons, List.not_mem_nil, or_false] at h ⊢
  grind

theorem length_pad (width : Nat) {n : Nat} (h : n < 10 ^ width) (hw : 0 < width) :
    (pad width n).length = width := by
  have hle : (Nat.toDigits 10 n).length ≤ width :=
    (Nat.length_toDigits_le_iff (by decide) hw).mpr h
  rw [pad, List.length_append, List.length_replicate]
  omega

theorem ofDigitChars_pad (width n : Nat) : Nat.ofDigitChars 10 (pad width n) 0 = n := by
  rw [pad, Nat.ofDigitChars_append, Nat.ofDigitChars_replicate_zero, Nat.mul_zero,
    Nat.ofDigitChars_ten_toDigits]

theorem field_pad (width : Nat) {n : Nat} (stop : Char) (rest : List Char) (h : n < 10 ^ width)
    (hw : 0 < width) : field width stop (pad width n ++ stop :: rest) = some (n, rest) := by
  have hlength := length_pad width h hw
  have htake : (pad width n ++ stop :: rest).take width = pad width n := by
    rw [List.take_append_of_le_length hlength.ge, List.take_of_length_le hlength.le]
  have hdrop : (pad width n ++ stop :: rest).drop width = stop :: rest := by
    rw [List.drop_append_of_le_length hlength.ge, List.drop_of_length_le hlength.le,
      List.nil_append]
  have hdigits : (pad width n).all Char.isDigit = true :=
    List.all_eq_true.mpr fun c hc => pad_isDigit hc
  unfold field
  rw [htake, hdrop]
  show (if _ then some (Nat.ofDigitChars 10 (pad width n) 0, rest) else none) = _
  rw [if_pos ⟨hlength, hdigits, rfl⟩, ofDigitChars_pad]

theorem daysBeforeYear_succ {year : Nat} (h : 1 ≤ year) :
    daysBeforeYear (year + 1) = daysBeforeYear year + yearDays year := by
  obtain ⟨n, rfl⟩ := Nat.exists_eq_add_of_le' h
  have h4 : (n + 1) / 4 = n / 4 + if 4 ∣ n + 1 then 1 else 0 := Nat.succ_div
  have h100 : (n + 1) / 100 = n / 100 + if 100 ∣ n + 1 then 1 else 0 := Nat.succ_div
  have h400 : (n + 1) / 400 = n / 400 + if 400 ∣ n + 1 then 1 else 0 := Nat.succ_div
  have hle : n / 100 ≤ n / 4 := Nat.div_le_div_left (by decide) (by decide)
  have hleap : isLeap (n + 1) = true ↔ 4 ∣ n + 1 ∧ (¬ 100 ∣ n + 1 ∨ 400 ∣ n + 1) := by
    simp [isLeap, Nat.dvd_iff_mod_eq_zero]
  have hdvd : 100 ∣ n + 1 → 4 ∣ n + 1 := Nat.dvd_trans (by decide)
  have hdvd' : 400 ∣ n + 1 → 100 ∣ n + 1 := Nat.dvd_trans (by decide)
  unfold daysBeforeYear yearDays
  rw [Nat.add_sub_cancel, Nat.add_sub_cancel, h4, h100, h400]
  simp only [hleap]
  generalize n / 4 = a at *
  generalize n / 100 = b at *
  by_cases d4 : 4 ∣ n + 1 <;> by_cases d100 : 100 ∣ n + 1 <;> by_cases d400 : 400 ∣ n + 1 <;>
    simp [d4, d100, d400] at hdvd hdvd' ⊢ <;> omega

/-- Taking years keeps the day, and ends in the year that holds it unless the fuel ran out. -/
theorem takeYears_spec (fuel year days : Nat) (h : 1 ≤ year) :
    let taken := takeYears fuel year days
    daysBeforeYear year + days = daysBeforeYear taken.1 + taken.2 ∧ year ≤ taken.1 ∧
      (taken.2 < yearDays taken.1 ∨ taken.1 = year + fuel) := by
  induction fuel generalizing year days with
  | zero => exact ⟨rfl, Nat.le_refl _, Or.inr rfl⟩
  | succ fuel ih =>
      unfold takeYears
      split
      · rename_i hin
        exact ⟨rfl, Nat.le_refl _, Or.inl hin⟩
      · rename_i hout
        obtain ⟨hsum, hle, hend⟩ := ih (year + 1) (days - yearDays year) (by omega)
        have hyear := daysBeforeYear_succ h
        refine ⟨?_, by omega, hend.imp_right fun heq => by omega⟩
        rw [← hsum, hyear]
        omega

theorem Day.year_spec {day : Nat} (h : day < 3652059) :
    daysBeforeYear (Day.year day).1 + (Day.year day).2 = day ∧ 1 ≤ (Day.year day).1 ∧
      (Day.year day).1 ≤ 9999 ∧ (Day.year day).2 < yearDays (Day.year day).1 := by
  unfold Day.year
  obtain ⟨hsum, hle, hend⟩ := takeYears_spec 9999 1 day (Nat.le_refl 1)
  have hzero : daysBeforeYear 1 = 0 := rfl
  rw [hzero, Nat.zero_add] at hsum
  have hmono : ∀ year, 10000 ≤ year → 3652059 ≤ daysBeforeYear year := by
    intro year hyear
    unfold daysBeforeYear
    omega
  have hbound : (takeYears 9999 1 day).1 ≤ 9999 := by
    by_contra hlarge
    have := hmono _ (Nat.lt_of_not_le hlarge)
    omega
  exact ⟨hsum.symm, hle, hbound, hend.resolve_right (by omega)⟩

/-- Taking months keeps the day, and ends in the month that holds it. -/
theorem takeMonths_spec (lengths : List Nat) (month days : Nat) (h : days < lengths.sum) :
    let taken := takeMonths lengths month days
    month ≤ taken.1 ∧ taken.1 < month + lengths.length ∧
      taken.2 < lengths.getD (taken.1 - month) 0 ∧
      (lengths.take (taken.1 - month)).sum + taken.2 = days := by
  induction lengths generalizing month days with
  | nil => exact absurd h (Nat.not_lt_zero _)
  | cons length rest ih =>
      unfold takeMonths
      split
      · rename_i hin
        simp [hin]
      · rename_i hout
        rw [List.sum_cons] at h
        obtain ⟨hle, hlt, hday, hsum⟩ := ih (month + 1) (days - length) (by omega)
        simp only [List.length_cons]
        obtain ⟨k, hk⟩ := Nat.exists_eq_add_of_le hle
        simp only [hk] at hday hsum ⊢
        rw [show month + 1 + k - (month + 1) = k by omega] at hday hsum
        rw [show month + 1 + k - month = k + 1 by omega, List.getD_cons_succ, List.take_succ_cons,
          List.sum_cons]
        refine ⟨by omega, by omega, hday, by omega⟩

theorem sum_monthDays (year : Nat) : (monthDays year).sum = yearDays year := by
  unfold monthDays yearDays
  split <;> rfl

theorem Day.month_spec {day : Nat} (h : day < 3652059) :
    let year := (Day.year day).1
    let month := (Day.month day).1
    1 ≤ month ∧ month ≤ 12 ∧ (Day.month day).2 < (monthDays year).getD (month - 1) 0 ∧
      ((monthDays year).take (month - 1)).sum + (Day.month day).2 = (Day.year day).2 := by
  have hlt : (Day.year day).2 < (monthDays (Day.year day).1).sum := by
    rw [sum_monthDays]
    exact (Day.year_spec h).2.2.2
  obtain ⟨hle, hlength, hday, hsum⟩ := takeMonths_spec _ 1 _ hlt
  have hlast : (Day.month day).1 < 1 + 12 := hlength
  exact ⟨hle, by omega, hday, hsum⟩

theorem getD_monthDays_le (year month : Nat) : (monthDays year).getD month 0 ≤ 31 := by
  unfold monthDays
  match month with
  | 0 | 2 | 3 | 4 | 5 | 6 | 7 | 8 | 9 | 10 | 11 => simp
  | 1 =>
      show (if isLeap year then 29 else 28) ≤ 31
      split <;> omega
  | n + 12 => simp

/-- What the fields of a stamp in range are: each fits the digits it is written in. -/
theorem civil_spec {stamp : Nat} (h : stamp < stampLimit) :
    let day := stamp / dayMillis
    (Day.year day).1 < 10000 ∧ (Day.month day).1 < 100 ∧ (Day.month day).2 + 1 < 100 ∧
      stamp % dayMillis < 86400000 := by
  have hday : stamp / dayMillis < 3652059 := Nat.div_lt_of_lt_mul (by rw [Nat.mul_comm]; exact h)
  have hyear := (Day.year_spec hday).2.2.1
  obtain ⟨-, hmonth, hin, -⟩ := Day.month_spec hday
  have hlength := getD_monthDays_le (Day.year (stamp / dayMillis)).1
    ((Day.month (stamp / dayMillis)).1 - 1)
  have htime : stamp % dayMillis < 86400000 := Nat.mod_lt _ (by decide)
  exact ⟨by omega, by omega, by omega, htime⟩

/-- **The text of a stamp in range is read back.** -/
theorem parseTimestamp_timestampText {stamp : Nat} (h : stamp < stampLimit) :
    parseTimestamp (timestampText stamp) = some stamp := by
  have hmillis : dayMillis = 86400000 := rfl
  have hday : stamp / dayMillis < 3652059 :=
    Nat.div_lt_of_lt_mul (by rw [Nat.mul_comm]; exact h)
  obtain ⟨hyear, hyear1, -, -⟩ := Day.year_spec hday
  obtain ⟨hmonth1, hmonth2, hin, hmonth⟩ := Day.month_spec hday
  obtain ⟨hy, hm, hd, htime⟩ := civil_spec h
  have hsplit : stamp / dayMillis * dayMillis + stamp % dayMillis = stamp := Nat.div_add_mod' ..
  unfold parseTimestamp timestampText Stamp.day
  generalize stamp / dayMillis = day at *
  generalize stamp % dayMillis = time at *
  have hhour : time / 3600000 < 10 ^ 2 := by omega
  have hminute : time / 60000 % 60 < 10 ^ 2 := by omega
  have hsecond : time / 1000 % 60 < 10 ^ 2 := by omega
  have hmilli : time % 1000 < 10 ^ 3 := by omega
  simp only [field_pad 4 _ _ hy (by decide), field_pad 2 _ _ hm (by decide),
    field_pad 2 _ _ hd (by decide), field_pad 2 _ _ hhour (by decide),
    field_pad 2 _ _ hminute (by decide), field_pad 2 _ _ hsecond (by decide),
    field_pad 3 _ _ hmilli (by decide), Option.bind_eq_bind, Option.bind_some]
  have hminutes : time / 60000 / 60 = time / 3600000 := Nat.div_div_eq_div_mul ..
  have hseconds : time / 1000 / 60 = time / 60000 := Nat.div_div_eq_div_mul ..
  rw [if_pos]
  · rw [Nat.add_sub_cancel, Nat.add_assoc (daysBeforeYear _), hmonth, hyear, Option.some.injEq]
    show @Eq Nat _ _
    omega
  · exact ⟨hyear1, hmonth1, hmonth2, by omega, by omega, by omega, by omega, by omega, by simp⟩

theorem length_timestampText {stamp : Nat} (h : stamp < stampLimit) :
    (timestampText stamp).length = 24 := by
  obtain ⟨hy, hm, hd, htime⟩ := civil_spec h
  unfold timestampText Stamp.day
  generalize stamp / dayMillis = day at *
  generalize stamp % dayMillis = time at *
  have h4 := fun n (hn : n < 10000) => length_pad 4 hn (by decide)
  have h3 := fun n (hn : n < 1000) => length_pad 3 hn (by decide)
  have h2 := fun n (hn : n < 100) => length_pad 2 hn (by decide)
  simp only [List.length_append, List.length_cons, List.length_nil]
  rw [h4 _ hy, h2 _ hm, h2 _ hd, h2 _ (by omega), h2 _ (by omega), h2 _ (by omega), h3 _ (by omega)]

end Milhouse
