import Mathlib.Data.List.Lex
import Mathlib.Logic.Function.Iterate
import Mathlib.Tactic.IntervalCases

/-!
# The proleptic Gregorian calendar

Dates and times of day as the calendar counts them: each day follows the one before, each second
follows the one before. How many seconds lie between an instant and the start of 1970 is given in
closed form.

* **`DateTime.unix_next`** — the closed form counts: one second later it is one more.
* **`DateTime.iterate_next`** — an instant is reached from the start of 1970 in that many seconds.
* **`DateTime.unix_lt`** — later instants have greater numbers.
* **`Date.dayNumber_eq`** — the days in one formula of year, month and day.
-/

namespace Gregorian

/-- Every fourth year, of the hundredth only every fourth. -/
def IsLeap (y : Nat) : Prop := (y % 4 = 0 ∧ y % 100 ≠ 0) ∨ y % 400 = 0

instance (y : Nat) : Decidable (IsLeap y) := inferInstanceAs (Decidable (_ ∨ _))

def leapDay (y : Nat) : Nat := if IsLeap y then 1 else 0

def yearLength (y : Nat) : Nat := 365 + leapDay y

def monthLength (y m : Nat) : Nat :=
  if m = 2 then 28 + leapDay y
  else if m = 4 ∨ m = 6 ∨ m = 9 ∨ m = 11 then 30
  else 31

/-- No month is empty, so that a date always has a day to begin its month with. -/
theorem monthLength_pos (y m : Nat) : 1 ≤ monthLength y m := by
  unfold monthLength
  split_ifs <;> omega

/-- A leap day moves the quotients by 4, 100 and 400, which is why the closed form may count leap
years by three divisions. -/
theorem leapDay_eq (y : Nat) :
    (leapDay y : Int) = ((y : Int) / 4 - ((y : Int) - 1) / 4)
      - ((y : Int) / 100 - ((y : Int) - 1) / 100)
      + ((y : Int) / 400 - ((y : Int) - 1) / 400) := by
  unfold leapDay
  split
  · next h =>
    simp only [IsLeap] at h
    omega
  · next h =>
    simp only [IsLeap] at h
    omega

/-! ## Days before a month and before a year -/

/-- Days of the year `y` before its month `m`. -/
def monthStart (y m : Nat) : Nat := ((List.range' 1 (m - 1)).map (monthLength y)).sum

/-- A month begins where the one before it ends. -/
theorem monthStart_succ (y : Nat) {m : Nat} (h : 1 ≤ m) :
    monthStart y (m + 1) = monthStart y m + monthLength y m := by
  rw [monthStart, monthStart, Nat.add_sub_cancel, ← Nat.sub_add_cancel h, List.range'_1_concat,
    List.map_append, List.sum_append, Nat.add_sub_cancel]
  simp [Nat.add_comm]

/-- Earlier months end before later ones begin. -/
theorem monthStart_le (y : Nat) {m n : Nat} (hm : 1 ≤ m) (h : m < n) :
    monthStart y m + monthLength y m ≤ monthStart y n := by
  induction n, h using Nat.le_induction with
  | base => exact Nat.le_of_eq (monthStart_succ y hm).symm
  | succ n hn ih =>
    rw [monthStart_succ y (by omega)]
    omega

/-- The months make up the year: what would be a thirteenth month begins with the next year. -/
theorem monthStart_thirteen (y : Nat) : monthStart y 13 = yearLength y := by
  simp [monthStart, List.range', monthLength, yearLength]
  omega

/-- Days from the start of 1970 to that of the year `y`. -/
def yearStart (y : Nat) : Int :=
  365 * y + ((y : Int) - 1) / 4 - ((y : Int) - 1) / 100 + ((y : Int) - 1) / 400 - 719527

/-- A year begins where the one before it ends. -/
theorem yearStart_succ (y : Nat) : yearStart (y + 1) = yearStart y + yearLength y := by
  have hleap := leapDay_eq y
  unfold yearStart yearLength
  omega

/-- Earlier years end before later ones begin. -/
theorem yearStart_le {y z : Nat} (h : y < z) : yearStart y + yearLength y ≤ yearStart z := by
  induction z, h using Nat.le_induction with
  | base => exact (yearStart_succ y).ge
  | succ z hz ih =>
    rw [yearStart_succ z]
    omega

/-! ## Dates -/

structure Date where
  year : Nat
  month : Nat
  day : Nat
  month_pos : 1 ≤ month
  month_le : month ≤ 12
  day_pos : 1 ≤ day
  day_le : day ≤ monthLength year month

namespace Date

/-- The day after. -/
def next (d : Date) : Date :=
  if h : d.day < monthLength d.year d.month then
    { d with day := d.day + 1, day_pos := Nat.le_add_left 1 d.day, day_le := h }
  else if h' : d.month < 12 then
    { year := d.year
      month := d.month + 1
      day := 1
      month_pos := Nat.le_add_left 1 d.month
      month_le := h'
      day_pos := Nat.le_refl 1
      day_le := monthLength_pos _ _ }
  else
    { year := d.year + 1
      month := 1
      day := 1
      month_pos := Nat.le_refl 1
      month_le := by decide
      day_pos := Nat.le_refl 1
      day_le := monthLength_pos _ _ }

/-- Days since the start of 1970. -/
def dayNumber (d : Date) : Int := yearStart d.year + monthStart d.year d.month + (d.day - 1)

/-- **The days are counted**: the day after has the next number. There are three cases, a day within
its month, the last of a month and the last of a year. -/
theorem dayNumber_next (d : Date) : d.next.dayNumber = d.dayNumber + 1 := by
  have hpos := d.day_pos
  have hle := d.day_le
  unfold next
  split
  · simp only [dayNumber]
    omega
  · split
    · -- the first day of the next month
      simp only [dayNumber]
      rw [monthStart_succ d.year d.month_pos]
      omega
    · -- the first day of the next year
      have hlast : d.month = 12 := by
        have := d.month_le
        omega
      have hyear := monthStart_thirteen d.year
      rw [monthStart_succ d.year (by decide : 1 ≤ 12), ← hlast] at hyear
      simp only [dayNumber]
      rw [yearStart_succ, show monthStart (d.year + 1) 1 = 0 from rfl]
      omega

/-- The days before a date in its year. -/
theorem dayOfYear_lt (d : Date) :
    monthStart d.year d.month + (d.day - 1) < yearLength d.year := by
  have hmonths := monthStart_le d.year d.month_pos (Nat.lt_succ_of_le d.month_le)
  have hyear : monthStart d.year (Nat.succ 12) = yearLength d.year := monthStart_thirteen d.year
  have hpos := d.day_pos
  have hle := d.day_le
  omega

/-- Days since the start of 1970, by a formula in which the year begins in March. -/
def daysFromCivil (year month day : Nat) : Int :=
  let y : Int := if month ≤ 2 then year - 1 else year
  let m : Int := (month + 9) % 12
  365 * y + y / 4 - y / 100 + y / 400 + (153 * m + 2) / 5 + day - 719469

/-- The number that counts days from month to month is that of the closed form, which knows no
months. -/
theorem dayNumber_eq (d : Date) : d.dayNumber = daysFromCivil d.year d.month d.day := by
  have hleap := leapDay_eq d.year
  have hpos := d.month_pos
  have hle := d.month_le
  unfold dayNumber daysFromCivil
  generalize d.month = m at hpos hle
  interval_cases m <;> simp [monthStart, List.range', monthLength, yearStart] <;> omega

end Date

/-! ## Instants -/

structure DateTime where
  date : Date
  hour : Nat
  minute : Nat
  second : Nat
  hour_lt : hour < 24
  minute_lt : minute < 60
  second_lt : second < 60

namespace DateTime

/-- The start of 1970. -/
def epoch : DateTime where
  date := ⟨1970, 1, 1, by decide, by decide, by decide, by decide⟩
  hour := 0
  minute := 0
  second := 0
  hour_lt := by decide
  minute_lt := by decide
  second_lt := by decide

/-- The second after. -/
def next (t : DateTime) : DateTime :=
  if h : t.second + 1 < 60 then { t with second := t.second + 1, second_lt := h }
  else if h : t.minute + 1 < 60 then
    { t with minute := t.minute + 1, second := 0, minute_lt := h, second_lt := by decide }
  else if h : t.hour + 1 < 24 then
    { t with
      hour := t.hour + 1
      minute := 0
      second := 0
      hour_lt := h
      minute_lt := by decide
      second_lt := by decide }
  else
    { date := t.date.next
      hour := 0
      minute := 0
      second := 0
      hour_lt := by decide
      minute_lt := by decide
      second_lt := by decide }

/-- Seconds since the start of 1970. -/
def unix (t : DateTime) : Int :=
  86400 * t.date.dayNumber + 3600 * t.hour + 60 * t.minute + t.second

/-- **The seconds are counted.** The second after has the next number, also across a minute, an hour
and a day. -/
theorem unix_next (t : DateTime) : t.next.unix = t.unix + 1 := by
  have hhour := t.hour_lt
  have hminute := t.minute_lt
  have hsecond := t.second_lt
  unfold next
  split
  · simp only [unix]
    omega
  · split
    · simp only [unix]
      omega
    · split
      · simp only [unix]
        omega
      · simp only [unix]
        rw [Date.dayNumber_next]
        omega

/-- So the number of an instant tells how many steps it is from the epoch. -/
theorem unix_iterate (n : Nat) : (next^[n] epoch).unix = n := by
  induction n with
  | zero => rfl
  | succ n ih =>
    rw [Function.iterate_succ_apply', unix_next, ih]
    rfl

/-- From the year down to the second. -/
def fields (t : DateTime) : List Nat :=
  [t.date.year, t.date.month, t.date.day, t.hour, t.minute, t.second]

/-- **Later instants have greater numbers**, in the lexicographic order of their fields. Two
instants on one day differ by less than a day, and a later day is worth all its seconds. -/
theorem unix_lt {a b : DateTime} (h : a.fields < b.fields) : a.unix < b.unix := by
  have hhour := a.hour_lt
  have hminute := a.minute_lt
  have hsecond := a.second_lt
  have hday := a.date.day_le
  have hpos := a.date.day_pos
  have hpos' := b.date.day_pos
  simp only [fields, List.cons_lt_cons_iff, List.not_lt_nil, and_false, or_false] at h
  simp only [unix, Date.dayNumber]
  rcases h with hyear | ⟨hyear, hmonth | ⟨hmonth, hrest⟩⟩
  · have hyears := yearStart_le hyear
    have hdays := a.date.dayOfYear_lt
    omega
  · have hmonths := monthStart_le a.date.year a.date.month_pos hmonth
    rw [← hyear]
    omega
  · rw [← hyear, ← hmonth]
    omega

/-- An instant is its six fields. -/
theorem ext_fields {a b : DateTime} (h : a.fields = b.fields) : a = b := by
  rcases a with ⟨⟨_, _, _, _, _, _, _⟩, _, _, _, _, _, _⟩
  rcases b with ⟨⟨_, _, _, _, _, _, _⟩, _, _, _, _, _, _⟩
  simp only [fields, List.cons.injEq, and_true] at h
  rcases h with ⟨rfl, rfl, rfl, rfl, rfl, rfl⟩
  rfl

/-- No two instants have one number: their fields are comparable, and the later one has the greater
number. -/
theorem unix_injective {a b : DateTime} (h : a.unix = b.unix) : a = b := by
  rcases lt_trichotomy a.fields b.fields with hlt | heq | hgt
  · exact absurd h (unix_lt hlt).ne
  · exact ext_fields heq
  · exact absurd h.symm (unix_lt hgt).ne

/-- **An instant is as many seconds after the start of 1970 as its number says.** -/
theorem iterate_next {t : DateTime} {n : Nat} (h : t.unix = n) : next^[n] epoch = t :=
  unix_injective ((unix_iterate n).trans h.symm)

end DateTime

end Gregorian
