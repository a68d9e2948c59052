import Mathlib.Data.UInt
import Qonduit.Ingestion.RecordDecoders
import Qonduit.Lib.Gregorian

/-!
# Qonduit — tick dates as Unix time

`qubic_date_to_unix` adds up the lengths of the years from 1970 and of the months before the one
given, with a leap day after February. The calendar gives each date its number.

* **`yearDays_eq`**, **`addMonths_eq`** — the two loops count the days of the calendar.
* **`tick_dates_unix`** — the timestamp of a date and time of day is the number of its second.
-/

namespace Qonduit

open Gregorian

/-- The test of the code is the rule of the calendar. -/
theorem isLeapYear_iff (year : Nat) : isLeapYear year = true ↔ IsLeap year := decide_eq_true_iff

/-- One more turn of the loop over the years. -/
theorem yearDays_succ {year : Nat} (h : 1970 ≤ year) :
    yearDays (year + 1) = yearDays year + yearLength year := by
  have hturn : (if isLeapYear year then 366 else 365) = yearLength year := by
    simp only [isLeapYear_iff, yearLength, leapDay]
    split_ifs <;> rfl
  have hlen : year + 1 - 1970 = year - 1970 + 1 := by omega
  have hlast : 1970 + (year - 1970) = year := by omega
  rw [yearDays, yearDays, hlen, List.range'_1_concat, List.map_append, List.sum_append, hlast,
    List.map_singleton, List.sum_singleton, hturn]

/-- The loop over the years. -/
theorem yearDays_eq {year : Nat} (h : 1970 ≤ year) : (yearDays year : Int) = yearStart year := by
  induction year, h using Nat.le_induction with
  | base => rfl
  | succ year h ih =>
    rw [yearDays_succ h, yearStart_succ, ← ih]
    omega

theorem addMonth_eq (year total : Nat) {m : Nat} (hpos : 1 ≤ m) (hle : m ≤ 12) :
    addMonth year total m = .ok (total + monthLength year m) := by
  have hleap := isLeapYear_iff year
  unfold addMonth monthLength leapDay
  interval_cases m <;> simp [daysInMonth, hleap, Nat.add_assoc]

/-- The loop over the months. -/
theorem addMonths_eq (year total : Nat) {m : Nat} (hpos : 1 ≤ m) (hle : m ≤ 13) :
    (List.range' 1 (m - 1)).foldlM (addMonth year) total
      = .ok (total + monthStart year m) := by
  induction m, hpos using Nat.le_induction with
  | base => rfl
  | succ m hpos ih =>
    have hrange : List.range' 1 (m + 1 - 1) = List.range' 1 (m - 1) ++ [m] := by
      rw [Nat.add_sub_cancel, ← Nat.sub_add_cancel hpos, List.range'_1_concat, Nat.add_sub_cancel,
        Nat.add_comm 1]
    rw [hrange, List.foldlM_append, ih (by omega), ok_bind, List.foldlM_cons,
      addMonth_eq year _ hpos (by omega), ok_bind, monthStart_succ year hpos, Nat.add_assoc]
    rfl

/-- What `qubic_date_to_unix` is given. -/
structure QubicDate where
  year : UInt32
  month : UInt8
  day : UInt8
  hour : UInt8
  minute : UInt8
  second : UInt8

namespace QubicDate

def toUnix (d : QubicDate) : Outcome UInt64 :=
  qubicDateToUnix d.year.toNat d.month d.day d.hour d.minute d.second

/-- A date of the calendar from 1970 on, and a time of day. -/
structure Valid (d : QubicDate) : Prop where
  year : 1970 ≤ d.year.toNat
  month : 1 ≤ d.month.toNat ∧ d.month.toNat ≤ 12
  day : 1 ≤ d.day.toNat ∧ d.day.toNat ≤ monthLength d.year.toNat d.month.toNat
  hour : d.hour.toNat < 24
  minute : d.minute.toNat < 60
  second : d.second.toNat < 60

/-- The instant a valid date stands for. -/
def instant (d : QubicDate) (h : d.Valid) : DateTime where
  date :=
    { year := d.year.toNat
      month := d.month.toNat
      day := d.day.toNat
      month_pos := h.month.1
      month_le := h.month.2
      day_pos := h.day.1
      day_le := h.day.2 }
  hour := d.hour.toNat
  minute := d.minute.toNat
  second := d.second.toNat
  hour_lt := h.hour
  minute_lt := h.minute
  second_lt := h.second

/-- From the year down to the second. -/
def fields (d : QubicDate) : List Nat :=
  [d.year.toNat, d.month.toNat, d.day.toNat, d.hour.toNat, d.minute.toNat, d.second.toNat]

/-- Even the last year of a `u32` leaves room in a `u64`. -/
theorem unix_lt_two_pow (d : QubicDate) (h : d.Valid) : (d.instant h).unix < 2 ^ 64 := by
  have hyear := d.year.toNat_lt
  have hday := (d.instant h).date.dayOfYear_lt
  have hhour := h.hour
  have hminute := h.minute
  have hsecond := h.second
  have hleap : yearLength d.year.toNat ≤ 366 := by
    unfold yearLength leapDay
    split_ifs <;> omega
  simp only [DateTime.unix, Date.dayNumber, instant, yearStart] at hday ⊢
  omega

/-- The sum the code computes is the number of the instant. -/
theorem toUnix_eq (d : QubicDate) (h : d.Valid) :
    ∃ t, d.toUnix = .ok t ∧ (t.toNat : Int) = (d.instant h).unix := by
  have hyears := yearDays_eq h.year
  have hday := h.day.1
  have hlt := unix_lt_two_pow d h
  have hmonths := addMonths_eq d.year.toNat (yearDays d.year.toNat) h.month.1 (by
    have := h.month.2
    omega)
  rw [toUnix, qubicDateToUnix, hmonths]
  refine ⟨_, rfl, ?_⟩
  simp only [DateTime.unix, Date.dayNumber, instant] at hlt ⊢
  rw [← hyears] at hlt ⊢
  rw [UInt64.toNat_ofNat_of_lt' (by show _ < 2 ^ 64; omega)]
  omega

/-- **Tick dates convert to Unix time.** For every date of the calendar from 1970 on and every time
of day: the timestamp is given by the closed form, the instant is that many seconds after the start
of 1970, and a later date has a greater timestamp. -/
theorem tick_dates_unix (d : QubicDate) (h : d.Valid) :
    ∃ t, d.toUnix = .ok t ∧
      (t.toNat : Int) = 86400 * Date.daysFromCivil d.year.toNat d.month.toNat d.day.toNat
        + 3600 * d.hour.toNat + 60 * d.minute.toNat + d.second.toNat ∧
      DateTime.next^[t.toNat] DateTime.epoch = d.instant h ∧
      ∀ d' : QubicDate, d'.Valid → d.fields < d'.fields →
        ∀ t', d'.toUnix = .ok t' → t < t' := by
  obtain ⟨t, ht, hunix⟩ := toUnix_eq d h
  refine ⟨t, ht, ?_, DateTime.iterate_next hunix.symm, ?_⟩
  · rw [hunix, DateTime.unix, Date.dayNumber_eq]
    rfl
  · intro d' h' hlt t' ht'
    obtain ⟨t₁, ht₁, hunix'⟩ := toUnix_eq d' h'
    rw [ht₁] at ht'
    cases ht'
    have hinstants : (d.instant h).fields < (d'.instant h').fields := hlt
    have hless := DateTime.unix_lt hinstants
    rw [UInt64.lt_iff_toNat_lt]
    omega

/-- The last second of a leap day, and the first of the next. -/
def leapDayEnd : QubicDate := ⟨2024, 2, 29, 23, 59, 59⟩

def marchStart : QubicDate := ⟨2024, 3, 1, 0, 0, 0⟩

/-- The last second of a leap day, and what comes after it. -/
theorem tick_dates_unix_sample :
    ∃ t, leapDayEnd.toUnix = .ok t ∧ (t.toNat : Int) = 1709251199 ∧
      ∀ t', marchStart.toUnix = .ok t' → t < t' := by
  have hend : leapDayEnd.Valid := by
    refine ⟨?_, ?_, ?_, ?_, ?_, ?_⟩ <;> decide
  have hstart : marchStart.Valid := by
    refine ⟨?_, ?_, ?_, ?_, ?_, ?_⟩ <;> decide
  obtain ⟨t, ht, hunix, -, hlater⟩ := tick_dates_unix leapDayEnd hend
  exact ⟨t, ht, hunix, hlater marchStart hstart (by decide)⟩

end QubicDate

end Qonduit
