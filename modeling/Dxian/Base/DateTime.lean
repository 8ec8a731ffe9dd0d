import Dxian.Base.Date

/-!
# Broken-down times

`BreakTime` and `fromUtcTime` convert seconds since 1970 to the fields of a date and a
time of day, and back.

## Main results

- `breakTime_eq`, `fromUtcTime_eq` — what the functions compute
- `breakTime_fromUtcTime` — they are inverse to each other, and monotone
-/

namespace Dxian

open Gregorian

/-- `struct DateTime`. -/
@[ext] structure DateTime where
  year : ℤ := 0
  month : ℤ := 0
  day : ℤ := 0
  hour : ℤ := 0
  minute : ℤ := 0
  second : ℤ := 0
deriving DecidableEq

def kSecondsPerDay : ℤ := 24 * 60 * 60

/-- `fillHMS`. -/
def fillHMS (seconds : ℕ) (dt : DateTime) : DateTime :=
  let minutes := seconds / 60
  { dt with
    second := (seconds % 60 : ℕ)
    minute := (minutes % 60 : ℕ)
    hour := (minutes / 60 : ℕ) }

/-- `BreakTime`. -/
def breakTime (t : ℤ) : Except Fault DateTime := do
  let seconds := CInt.cast (t.tmod kSecondsPerDay)
  let days := CInt.cast (t.tdiv kSecondsPerDay)
  let (seconds, days) ←
    if seconds < 0 then do
      let seconds ← (CInt.ofInt seconds + CInt.ofInt kSecondsPerDay).get .overflow
      let days ← (CInt.ofInt days - 1).get .overflow
      pure (seconds, days)
    else pure (seconds, days)
  let dt := fillHMS seconds.toNat {}
  let ymd ← getYearMonthDay (days + kJulianDayOf1970_01_01)
  return { dt with year := ymd.year, month := ymd.month, day := ymd.day }

/-- `TimeZone::toUtcTime`. -/
def toUtcTime (secondsSinceEpoch : ℤ) : Except Fault DateTime := breakTime secondsSinceEpoch

/-- `TimeZone::fromUtcTime`. -/
def fromUtcTime (dt : DateTime) : Except Fault ℤ := do
  let date := getJulianDayNumber dt.year dt.month dt.day
  let secondsInDay ← (dt.hour * 3600 + dt.minute * 60 + dt.second : CInt).get .overflow
  let days ← (date - kJulianDayOf1970_01_01).get .overflow
  return days * kSecondsPerDay + secondsInDay

/-! ## The seconds of the calendar -/

/-- The Julian day number of the second `t` since 1970. -/
def julianDayOf (t : ℤ) : ℤ := t / 86400 + 2440588

namespace DateTime

def date (dt : DateTime) : YearMonthDay := ⟨dt.year, dt.month, dt.day⟩

@[simp] theorem date_year (dt : DateTime) : dt.date.year = dt.year := rfl

@[simp] theorem date_month (dt : DateTime) : dt.date.month = dt.month := rfl

@[simp] theorem date_day (dt : DateTime) : dt.date.day = dt.day := rfl

/-- A date of the calendar and a time of day. -/
structure Valid (dt : DateTime) : Prop where
  date : dt.date.Valid
  hour : 0 ≤ dt.hour ∧ dt.hour ≤ 23
  minute : 0 ≤ dt.minute ∧ dt.minute ≤ 59
  second : 0 ≤ dt.second ∧ dt.second ≤ 59

/-- The fields, the most significant one first. -/
def fields (dt : DateTime) : List ℤ :=
  [dt.year, dt.month, dt.day, dt.hour, dt.minute, dt.second]

def secondOfDay (dt : DateTime) : ℤ := dt.hour * 3600 + dt.minute * 60 + dt.second

/-- The second since 1970. -/
def utcSecond (dt : DateTime) : ℤ := (julianDay dt.date - 2440588) * 86400 + dt.secondOfDay

variable {dt du : DateTime}

theorem Valid.secondOfDay_bounds (h : dt.Valid) :
    0 ≤ dt.secondOfDay ∧ dt.secondOfDay < 86400 := by
  have hhour := h.hour
  have hminute := h.minute
  have hsecond := h.second
  unfold secondOfDay
  omega

theorem Valid.julianDayOf_utcSecond (h : dt.Valid) :
    julianDayOf dt.utcSecond = julianDay dt.date := by
  have hbounds := h.secondOfDay_bounds
  unfold julianDayOf utcSecond
  omega

theorem fields_lt_iff (hdt : dt.Valid) (hdu : du.Valid) : dt.fields < du.fields ↔
    dt.date.Before du.date ∨ dt.date = du.date ∧ dt.secondOfDay < du.secondOfDay := by
  have hminute := hdt.minute
  have hsecond := hdt.second
  have hminute' := hdu.minute
  have hsecond' := hdu.second
  have htime : dt.secondOfDay < du.secondOfDay ↔ dt.hour < du.hour ∨ dt.hour = du.hour ∧
      (dt.minute < du.minute ∨ dt.minute = du.minute ∧ dt.second < du.second) := by
    unfold secondOfDay
    omega
  rw [htime, Date.ext_iff]
  simp only [fields, List.cons_lt_cons_iff, List.lt_irrefl, date, Date.Before, and_or_left,
    or_assoc, and_assoc, and_false, or_false]

/-- The seconds are in the order of the fields. -/
theorem utcSecond_lt_iff (hdt : dt.Valid) (hdu : du.Valid) :
    dt.utcSecond < du.utcSecond ↔ dt.fields < du.fields := by
  have hbounds := hdt.secondOfDay_bounds
  have hbounds' := hdu.secondOfDay_bounds
  rw [fields_lt_iff hdt hdu, ← Date.dayNumber_lt_iff hdt.date hdu.date]
  unfold utcSecond julianDay
  constructor
  · intro hlt
    by_cases hday : dt.date.dayNumber < du.date.dayNumber
    · exact .inl hday
    · exact .inr ⟨Date.dayNumber_inj hdt.date hdu.date (by omega), by omega⟩
  · intro hlt
    rcases hlt with hday | ⟨heq, hlt⟩
    · omega
    · rw [heq]
      omega

theorem utcSecond_inj (hdt : dt.Valid) (hdu : du.Valid) (h : dt.utcSecond = du.utcSecond) :
    dt = du := by
  have hbounds := hdt.secondOfDay_bounds
  have hbounds' := hdu.secondOfDay_bounds
  have hminute := hdt.minute
  have hsecond := hdt.second
  have hminute' := hdu.minute
  have hsecond' := hdu.second
  unfold utcSecond julianDay at h
  have hdate : dt.date = du.date := Date.dayNumber_inj hdt.date hdu.date (by omega)
  rw [hdate] at h
  unfold secondOfDay at h
  obtain ⟨hyear, hmonth, hday⟩ := Date.ext_iff.mp hdate
  exact DateTime.ext hyear hmonth hday (by omega) (by omega) (by omega)

end DateTime

/-! ## The conversions -/

/-- The borrow turns division towards zero into division downwards. -/
theorem tmod_tdiv_cases (t : ℤ) :
    t.tmod 86400 < 0 ∧ t.tmod 86400 + 86400 = t % 86400 ∧ t.tdiv 86400 - 1 = t / 86400 ∨
      0 ≤ t.tmod 86400 ∧ t.tmod 86400 = t % 86400 ∧ t.tdiv 86400 = t / 86400 := by
  have hsum := Int.tmod_add_mul_tdiv t 86400
  have hlt := Int.tmod_lt_of_pos t (show 0 < 86400 by decide)
  have hgt := Int.lt_tmod_of_pos t (show 0 < 86400 by decide)
  omega

theorem fillHMS_eq {seconds : ℤ} (h : 0 ≤ seconds) (dt : DateTime) :
    (fillHMS seconds.toNat dt).hour = seconds / 3600 ∧
      (fillHMS seconds.toNat dt).minute = seconds / 60 % 60 ∧
      (fillHMS seconds.toNat dt).second = seconds % 60 := by
  have hhour : (fillHMS seconds.toNat dt).hour = (seconds.toNat / 60 / 60 : ℕ) := rfl
  have hminute : (fillHMS seconds.toNat dt).minute = (seconds.toNat / 60 % 60 : ℕ) := rfl
  have hsecond : (fillHMS seconds.toNat dt).second = (seconds.toNat % 60 : ℕ) := rfl
  omega

/-- `BreakTime` after the borrow. -/
theorem breakTime_eq_bind {t : ℤ} (h : InDateRange (julianDayOf t)) : breakTime t = (do
    let ymd ← getYearMonthDay (CInt.ofInt (t / 86400) + kJulianDayOf1970_01_01)
    return { fillHMS (t % 86400).toNat {} with
      year := ymd.year, month := ymd.month, day := ymd.day }) := by
  unfold julianDayOf at h
  have hday : kSecondsPerDay = 86400 := rfl
  have hcases := tmod_tdiv_cases t
  have hseconds : CInt.cast (t.tmod 86400) = t.tmod 86400 := CInt.cast_of_inRange (by omega)
  have hdays : CInt.cast (t.tdiv 86400) = t.tdiv 86400 := CInt.cast_of_inRange (by omega)
  rw [breakTime, hday, hseconds, hdays]
  rcases hcases with ⟨hneg, hmod, hdiv⟩ | ⟨hpos, hmod, hdiv⟩
  · simp (disch := omega) only [if_pos hneg, CInt.ofNat_eq, CInt.ofInt_add, CInt.ofInt_sub,
      CInt.get_ofInt, hmod, hdiv]
    rfl
  · rw [if_neg (by omega), hmod, hdiv]
    rfl

/-- **What `BreakTime` computes.** -/
theorem breakTime_eq {t : ℤ} (h : InDateRange (julianDayOf t)) :
    ∃ dt, breakTime t = .ok dt ∧ dt.Valid ∧ dt.utcSecond = t := by
  obtain ⟨ymd, hymd, hvalid, hj⟩ := getYearMonthDay_eq h
  obtain ⟨hhour, hminute, hsecond⟩ := fillHMS_eq (show 0 ≤ t % 86400 by omega) {}
  have hbreak := breakTime_eq_bind h
  have hdays : CInt.ofInt (t / 86400) + kJulianDayOf1970_01_01 = CInt.ofInt (julianDayOf t) := by
    unfold julianDayOf at *
    rw [kJulianDayOf1970_01_01_eq, CInt.ofInt_add (by omega) (by omega)]
  rw [hdays, hymd] at hbreak
  refine ⟨_, hbreak, ⟨hvalid, ?_, ?_, ?_⟩, ?_⟩
  · rw [hhour]
    omega
  · rw [hminute]
    omega
  · rw [hsecond]
    omega
  · show (julianDay ymd - 2440588) * 86400 + ((fillHMS (t % 86400).toNat {}).hour * 3600 +
      (fillHMS (t % 86400).toNat {}).minute * 60 + (fillHMS (t % 86400).toNat {}).second) = t
    rw [hhour, hminute, hsecond, hj, julianDayOf]
    omega

/-- `BreakTime` after the borrow, whatever has overflowed. -/
theorem exists_of_breakTime {t : ℤ} {dt : DateTime} (h : breakTime t = .ok dt) :
    ∃ seconds days : ℤ, 0 ≤ seconds ∧ seconds < 86400 ∧ (do
      let ymd ← getYearMonthDay (CInt.ofInt days + kJulianDayOf1970_01_01)
      return { fillHMS seconds.toNat {} with
        year := ymd.year, month := ymd.month, day := ymd.day }) = Except.ok (ε := Fault) dt := by
  have hlt := Int.tmod_lt_of_pos t (show 0 < 86400 by decide)
  have hgt := Int.lt_tmod_of_pos t (show 0 < 86400 by decide)
  have hday : kSecondsPerDay = 86400 := rfl
  have hcast : CInt.cast (t.tmod 86400) = t.tmod 86400 := CInt.cast_of_inRange (by omega)
  rw [breakTime, hday, hcast] at h
  dsimp only at h
  split at h
  · obtain ⟨seconds, hseconds, h⟩ := exists_of_bind_eq_ok h
    obtain ⟨days, -, h⟩ := exists_of_bind_eq_ok h
    rw [CInt.ofInt_add (by omega) (by omega), CInt.get_ofInt _ (by omega)] at hseconds
    cases hseconds
    exact ⟨_, days, by omega, by omega, h⟩
  · exact ⟨_, _, by omega, by omega, h⟩

/-- **A time of a year from 0 on is valid**, whatever has overflowed on the way to it. -/
theorem valid_of_breakTime {t : ℤ} {dt : DateTime} (h : breakTime t = .ok dt)
    (hyear : 0 ≤ dt.year) : dt.Valid := by
  obtain ⟨seconds, days, hlow, hhigh, h⟩ := exists_of_breakTime h
  obtain ⟨ymd, hymd, h⟩ := exists_of_bind_eq_ok h
  have hvalid : 0 ≤ ymd.year → ymd.Valid := valid_of_getYearMonthDay hymd
  obtain ⟨hhour, hminute, hsecond⟩ := fillHMS_eq hlow {}
  cases h
  refine ⟨hvalid hyear, ?_, ?_, ?_⟩
  · rw [hhour]
    omega
  · rw [hminute]
    omega
  · rw [hsecond]
    omega

/-- **What `fromUtcTime` computes.** -/
theorem fromUtcTime_eq {dt : DateTime} (hvalid : dt.Valid)
    (hrange : InDateRange (julianDay dt.date)) : fromUtcTime dt = .ok dt.utcSecond := by
  have hhour := hvalid.hour
  have hminute := hvalid.minute
  have hsecond := hvalid.second
  have hday := getJulianDayNumber_eq hvalid.date hrange
  rw [DateTime.date_year, DateTime.date_month, DateTime.date_day] at hday
  simp (disch := omega) only [fromUtcTime, hday, kJulianDayOf1970_01_01_eq, CInt.ofNat_eq,
    CInt.ofInt_add, CInt.ofInt_sub, CInt.ofInt_mul, CInt.get_ofInt]
  rfl

/-- **The conversions are inverse to each other, and monotone**, on the days on which no
`int` overflows. -/
theorem breakTime_fromUtcTime :
    (∀ t, InDateRange (julianDayOf t) →
      ∃ dt, breakTime t = .ok dt ∧ dt.Valid ∧ fromUtcTime dt = .ok t) ∧
    (∀ dt : DateTime, dt.Valid → InDateRange (julianDay dt.date) →
      ∃ t, fromUtcTime dt = .ok t ∧ breakTime t = .ok dt) ∧
    ∀ t₁ t₂ dt₁ dt₂, InDateRange (julianDayOf t₁) → InDateRange (julianDayOf t₂) →
      breakTime t₁ = .ok dt₁ → breakTime t₂ = .ok dt₂ → (t₁ < t₂ ↔ dt₁.fields < dt₂.fields) := by
  refine ⟨fun t ht => ?_, fun dt hvalid hrange => ?_, fun t₁ t₂ dt₁ dt₂ h₁ h₂ hdt₁ hdt₂ => ?_⟩
  · obtain ⟨dt, hdt, hvalid, rfl⟩ := breakTime_eq ht
    rw [hvalid.julianDayOf_utcSecond] at ht
    exact ⟨dt, hdt, hvalid, fromUtcTime_eq hvalid ht⟩
  · refine ⟨dt.utcSecond, fromUtcTime_eq hvalid hrange, ?_⟩
    rw [← hvalid.julianDayOf_utcSecond] at hrange
    obtain ⟨du, hdu, hvalid', heq⟩ := breakTime_eq hrange
    rw [hdu, DateTime.utcSecond_inj hvalid' hvalid heq]
  · obtain ⟨du₁, hdu₁, hvalid₁, ht₁⟩ := breakTime_eq h₁
    obtain ⟨du₂, hdu₂, hvalid₂, ht₂⟩ := breakTime_eq h₂
    have heq₁ : dt₁ = du₁ := Except.ok.inj (hdt₁.symm.trans hdu₁)
    have heq₂ : dt₂ = du₂ := Except.ok.inj (hdt₂.symm.trans hdu₂)
    have hlt := DateTime.utcSecond_lt_iff hvalid₁ hvalid₂
    rw [ht₁, ht₂] at hlt
    rw [heq₁, heq₂]
    exact hlt

/-- The last second before 1970. -/
theorem breakTime_fromUtcTime_1969 :
    (∃ dt, breakTime (-1) = .ok dt ∧ dt.Valid ∧ fromUtcTime dt = .ok (-1)) ∧
    (∃ t, fromUtcTime ⟨1969, 12, 31, 23, 59, 59⟩ = .ok t ∧
      breakTime t = .ok ⟨1969, 12, 31, 23, 59, 59⟩) ∧
    ((-1 : ℤ) < 0 ↔
      (⟨1969, 12, 31, 23, 59, 59⟩ : DateTime).fields <
        (⟨1970, 1, 1, 0, 0, 0⟩ : DateTime).fields) := by
  have hvalid : (⟨1969, 12, 31, 23, 59, 59⟩ : DateTime).Valid :=
    ⟨⟨by decide, by decide, by decide, by decide⟩, by decide, by decide, by decide⟩
  exact ⟨breakTime_fromUtcTime.1 (-1) (by decide),
    breakTime_fromUtcTime.2.1 _ hvalid (by decide),
    breakTime_fromUtcTime.2.2 (-1) 0 _ _ (by decide) (by decide) rfl rfl⟩

end Dxian
