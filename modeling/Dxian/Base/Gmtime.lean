import Dxian.Base.DateTime

/-!
# The calendar of the C library

`gmtime_r` gives the date and the time of day of a second since 1970, in the proleptic
Gregorian calendar. `BreakTime` has a calendar of its own, that of `Date`.

## Main results

- `Gregorian.dayNumber_ofDayNumber`, `Gregorian.ofDayNumber_valid` — the date with a day number
- `breakTime_eq_gmtime_r` — both calendars agree
-/

namespace Gregorian

/-- The date with a day number. The calendar repeats after 400 years. -/
def ofDayNumber (n : ℤ) : Date :=
  let a := n % 146097
  let b := (4 * a + 3) / 146097
  let c := a - b * 146097 / 4
  let d := (4 * c + 3) / 1461
  ofMarch (100 * b + d + 400 * (n / 146097)) (c - 1461 * d / 4)

/-- The date with a day number as a day of a year from March on. -/
theorem exists_ofDayNumber (n : ℤ) : ∃ y e : ℤ, ofDayNumber n = ofMarch y e ∧ 0 ≤ e ∧ e ≤ 365 ∧
    n = yearStart y + e ∧ (e = 365 → IsLeap (y + 1)) := by
  obtain ⟨a, ha⟩ : ∃ a, a = n % 146097 := ⟨_, rfl⟩
  obtain ⟨b, hb⟩ : ∃ b, b = (4 * a + 3) / 146097 := ⟨_, rfl⟩
  obtain ⟨c, hc⟩ : ∃ c, c = a - b * 146097 / 4 := ⟨_, rfl⟩
  obtain ⟨d, hd⟩ : ∃ d, d = (4 * c + 3) / 1461 := ⟨_, rfl⟩
  obtain ⟨e, he⟩ : ∃ e, e = c - 1461 * d / 4 := ⟨_, rfl⟩
  obtain ⟨-, -, -, -, he0, he1, hyear, hleap⟩ := Dxian.cycles (by omega) hb hc hd he
  refine ⟨100 * b + d + 400 * (n / 146097), e, ?_, he0, he1, ?_, fun hlast => ?_⟩
  · rw [ofDayNumber, he, hd, hc, hb, ha]
  · rw [yearStart_add_period]
    omega
  · rw [show 100 * b + d + 400 * (n / 146097) + 1 = 100 * b + d + 1 + 400 * (n / 146097) by omega]
    exact (isLeap_add_period ..).mpr (hleap hlast)

theorem dayNumber_ofDayNumber (n : ℤ) : (ofDayNumber n).dayNumber = n := by
  obtain ⟨y, e, heq, he0, he1, hn, -⟩ := exists_ofDayNumber n
  rw [heq, dayNumber_ofMarch he0 he1, hn]

theorem ofDayNumber_valid (n : ℤ) : (ofDayNumber n).Valid := by
  obtain ⟨y, e, heq, he0, he1, -, hleap⟩ := exists_ofDayNumber n
  rw [heq]
  apply valid_ofMarch he0
  by_cases hlast : e = 365
  · rw [if_pos (hleap hlast), hlast]
    decide
  · split <;> omega

end Gregorian

namespace Dxian

open Gregorian

/-- `struct tm`, without the day of the week and of the year. -/
structure Tm where
  tmYear : ℤ
  tmMon : ℤ
  tmMday : ℤ
  tmHour : ℤ
  tmMin : ℤ
  tmSec : ℤ
deriving DecidableEq

/-- `gmtime_r`. The day number of 1 January 1970 is 719468. -/
def gmtimeR (seconds : ℤ) : Tm :=
  let date := ofDayNumber (seconds / 86400 + 719468)
  let secondOfDay := seconds % 86400
  { tmYear := date.year - 1900
    tmMon := date.month - 1
    tmMday := date.day
    tmHour := secondOfDay / 3600
    tmMin := secondOfDay / 60 % 60
    tmSec := secondOfDay % 60 }

/-- `DateTime::DateTime(const struct tm&)`. -/
def DateTime.ofTm (t : Tm) : DateTime where
  year := t.tmYear + 1900
  month := t.tmMon + 1
  day := t.tmMday
  hour := t.tmHour
  minute := t.tmMin
  second := t.tmSec

/-- The civil time of a second since 1970. -/
def civil (seconds : ℤ) : DateTime := .ofTm (gmtimeR seconds)

theorem date_civil (seconds : ℤ) :
    (civil seconds).date = ofDayNumber (seconds / 86400 + 719468) :=
  Date.ext (Int.sub_add_cancel ..) (Int.sub_add_cancel ..) rfl

theorem civil_valid (seconds : ℤ) : (civil seconds).Valid := by
  have hhour : (civil seconds).hour = seconds % 86400 / 3600 := rfl
  have hminute : (civil seconds).minute = seconds % 86400 / 60 % 60 := rfl
  have hsecond : (civil seconds).second = seconds % 86400 % 60 := rfl
  refine ⟨?_, by omega, by omega, by omega⟩
  rw [date_civil]
  exact ofDayNumber_valid _

theorem utcSecond_civil (seconds : ℤ) : (civil seconds).utcSecond = seconds := by
  have htime : (civil seconds).secondOfDay = seconds % 86400 / 3600 * 3600 +
      seconds % 86400 / 60 % 60 * 60 + seconds % 86400 % 60 := rfl
  rw [DateTime.utcSecond, date_civil, julianDay, dayNumber_ofDayNumber, htime]
  omega

/-- **`BreakTime` finds the time that `gmtime_r` finds.** -/
theorem breakTime_eq_gmtime_r {seconds : ℤ} (h : InDateRange (julianDayOf seconds)) :
    breakTime seconds = .ok (civil seconds) := by
  obtain ⟨dt, hdt, hvalid, hsecond⟩ := breakTime_eq h
  have heq : dt = civil seconds :=
    DateTime.utcSecond_inj hvalid (civil_valid seconds) (by rw [hsecond, utcSecond_civil])
  rw [hdt, heq]

theorem fromUtcTime_civil {seconds : ℤ} (h : InDateRange (julianDayOf seconds)) :
    fromUtcTime (civil seconds) = .ok seconds := by
  have hvalid := civil_valid seconds
  have hday := hvalid.julianDayOf_utcSecond
  rw [utcSecond_civil] at hday
  rw [fromUtcTime_eq hvalid (hday ▸ h), utcSecond_civil]

end Dxian
