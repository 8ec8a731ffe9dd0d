import Dxian.Base.Fault
import Dxian.Lib.CInt
import Dxian.Lib.Gregorian
import Mathlib.Tactic.ByContra

/-!
# Dates

`getJulianDayNumber` and `getYearMonthDay` compute with `int`s. Where nothing
overflows they are the day numbers of the Gregorian calendar and the dates of these.

## Main results

- `getJulianDayNumber_eq`, `getYearMonthDay_eq` — what the functions compute
- `valid_of_getYearMonthDay` — the dates from the year 0 on are valid
-/

namespace Dxian

open Gregorian

/-- `struct Date::YearMonthDay`. -/
abbrev YearMonthDay := Gregorian.Date

/-- `getJulianDayNumber`. -/
def getJulianDayNumber (year month day : CInt) : CInt :=
  let a := (14 - month) / 12
  let y := year + 4800 - a
  let m := month + 12 * a - 3
  day + (153 * m + 2) / 5 + y * 365 + y / 4 - y / 100 + y / 400 - 32045

/-- `getYearMonthDay`. -/
def getYearMonthDay (julianDayNumber : CInt) : Except Fault YearMonthDay := do
  let a := julianDayNumber + 32044
  let b := (4 * a + 3) / 146097
  let c := a - b * 146097 / 4
  let d := (4 * c + 3) / 1461
  let e := c - 1461 * d / 4
  let m := (5 * e + 2) / 153
  let day ← (e - (153 * m + 2) / 5 + 1).get .overflow
  let month ← (m + 3 - 12 * (m / 10)).get .overflow
  let year ← (b * 100 + d - 4800 + m / 10).get .overflow
  return ⟨year, month, day⟩

/-- `Date::kJulianDayOf1970_01_01`. -/
def kJulianDayOf1970_01_01 : CInt := getJulianDayNumber 1970 1 1

theorem kJulianDayOf1970_01_01_eq : kJulianDayOf1970_01_01 = .ofInt 2440588 := by
  decide

/-- The Julian day number of a date: the days since 24 November of the year -4713. -/
def julianDay (ymd : YearMonthDay) : ℤ := ymd.dayNumber + 1721120

/-- The Julian day numbers with which no `int` overflows. -/
@[reducible] def InDateRange (julianDayNumber : ℤ) : Prop :=
  -32044 ≤ julianDayNumber ∧ julianDayNumber ≤ 536838867

/-- The years of the dates in the range. -/
theorem marchYear_bounds {ymd : YearMonthDay} (hvalid : ymd.Valid)
    (hrange : InDateRange (julianDay ymd)) : -4800 ≤ ymd.marchYear ∧ ymd.marchYear < 1470000 := by
  have hday := hvalid.day_pos
  have hmonth := hvalid.marchMonth_bounds
  have hend := hvalid.dayNumber_lt_yearStart
  have hstart : 0 ≤ monthStart ymd.marchMonth := by
    unfold monthStart
    omega
  unfold julianDay at hrange
  constructor
  · by_contra hlt
    have hmono : yearStart (ymd.marchYear + 1) ≤ yearStart (-4800) := yearStart_mono (by omega)
    rw [show yearStart (-4800) = -1753164 from rfl] at hmono
    omega
  · by_contra hge
    have hmono : yearStart 1470000 ≤ yearStart ymd.marchYear := yearStart_mono (by omega)
    rw [show yearStart 1470000 = 536906475 from rfl] at hmono
    unfold Date.dayNumber at hrange
    omega

/-- **The day number of a date.** -/
theorem getJulianDayNumber_eq {ymd : YearMonthDay} (hvalid : ymd.Valid)
    (hrange : InDateRange (julianDay ymd)) :
    getJulianDayNumber ymd.year ymd.month ymd.day = .ofInt (julianDay ymd) := by
  have hbounds := marchYear_bounds hvalid hrange
  have hmonth := hvalid.month_pos
  have hmonth' := hvalid.month_le
  have hday := hvalid.day_pos
  have hday' := Int.le_trans hvalid.day_le (daysInMonth_le ..)
  have hcases := Date.march_cases ymd
  have hy : ymd.year + 4800 - (14 - ymd.month) / 12 = ymd.marchYear + 4800 := by omega
  have hm : ymd.month + 12 * ((14 - ymd.month) / 12) - 3 = ymd.marchMonth := by omega
  have hm' := hvalid.marchMonth_bounds
  simp (disch := omega) only [getJulianDayNumber, CInt.ofNat_eq, CInt.ofInt_add, CInt.ofInt_sub,
    CInt.ofInt_mul, CInt.ofInt_div]
  rw [hy, hm]
  congr 1
  unfold julianDay Date.dayNumber yearStart monthStart
  omega

/-- The year from March on, and the day in it, that `getYearMonthDay` finds. -/
theorem cycles {a b c d e : ℤ} (ha : 0 ≤ a) (hb : b = (4 * a + 3) / 146097)
    (hc : c = a - b * 146097 / 4) (hd : d = (4 * c + 3) / 1461) (he : e = c - 1461 * d / 4) :
    0 ≤ c ∧ c ≤ 36524 ∧ 0 ≤ d ∧ d ≤ 99 ∧ 0 ≤ e ∧ e ≤ 365 ∧ a = yearStart (100 * b + d) + e ∧
      (e = 365 → IsLeap (100 * b + d + 1)) := by
  -- at most 36525 days in a century, 1461 days in four years
  have hb0 : 0 ≤ b := by omega
  have hb4 : b * 146097 / 4 = 36524 * b + b / 4 := by omega
  have hc0 : 0 ≤ c := by omega
  have hc1 : c ≤ 36524 := by omega
  have hd0 : 0 ≤ d := by omega
  have hd1 : d ≤ 99 := by omega
  have hd4 : 1461 * d / 4 = 365 * d + d / 4 := by omega
  have he0 : 0 ≤ e := by omega
  have he1 : e ≤ 365 := by omega
  refine ⟨hc0, hc1, hd0, hd1, he0, he1, ?_, ?_⟩
  · have h4 : (100 * b + d) / 4 = 25 * b + d / 4 := by omega
    have h100 : (100 * b + d) / 100 = b := by omega
    have h400 : (100 * b + d) / 400 = b / 4 := by omega
    rw [yearStart, h4, h100, h400]
    omega
  · intro hlast
    have hd3 : d % 4 = 3 := by omega
    have hlong : d = 99 → b % 4 = 3 := by omega
    omega

/-- **The date of a day number.** -/
theorem getYearMonthDay_eq {j : ℤ} (h : InDateRange j) :
    ∃ ymd : YearMonthDay, getYearMonthDay j = .ok ymd ∧ ymd.Valid ∧ julianDay ymd = j := by
  obtain ⟨a, ha⟩ : ∃ a, j + 32044 = a := ⟨_, rfl⟩
  obtain ⟨b, hb⟩ : ∃ b, b = (4 * a + 3) / 146097 := ⟨_, rfl⟩
  obtain ⟨c, hc⟩ : ∃ c, c = a - b * 146097 / 4 := ⟨_, rfl⟩
  obtain ⟨d, hd⟩ : ∃ d, d = (4 * c + 3) / 1461 := ⟨_, rfl⟩
  obtain ⟨e, he⟩ : ∃ e, e = c - 1461 * d / 4 := ⟨_, rfl⟩
  obtain ⟨hc0, hc1, hd0, hd1, he0, he1, hyear, hleap⟩ := cycles (by omega) hb hc hd he
  have hb0 : 0 ≤ b ∧ b ≤ 14699 := by omega
  have hj : j = yearStart (100 * b + d) + e - 32044 := by omega
  have hm := monthOf_bounds he0 he1
  have hstart := monthStart_monthOf e
  unfold monthStart at hstart
  refine ⟨ofMarch (100 * b + d + 400 * -12) e, ?_, valid_ofMarch he0 ?_, ?_⟩
  · simp (disch := omega) only [getYearMonthDay, CInt.ofNat_eq, CInt.ofInt_add, CInt.ofInt_sub,
      CInt.ofInt_mul, CInt.ofInt_div, ha, ← hb, ← hc, ← hd, ← he]
    clear hb hc hd he hj hleap
    rw [show (5 * e + 2) / 153 = monthOf e from rfl]
    simp (disch := omega) only [CInt.get_ofInt]
    rw [show b * 100 + d - 4800 = 100 * b + d + 400 * -12 by omega]
    rfl
  · rw [show 100 * b + d + 400 * -12 + 1 = 100 * b + d + 1 + 400 * -12 by omega]
    clear hb hc hd he hj
    by_cases hlast : e = 365
    · rw [if_pos ((isLeap_add_period ..).mpr (hleap hlast)), hlast]
      decide
    · split <;> omega
  · rw [julianDay, dayNumber_ofMarch he0 he1, yearStart_add_period, hj]
    omega

/-! ## What a result says about the day number -/

/-- The year that `getYearMonthDay` finds before the first day number of the range. -/
theorem year_neg {a b c d e m : ℤ} (ha : a < 0) (hb : b = (4 * a + 3).tdiv 146097)
    (hc : c = a - (b * 146097).tdiv 4) (hd : d = (4 * c + 3).tdiv 1461)
    (he : e = c - (1461 * d).tdiv 4) (hm : m = (5 * e + 2).tdiv 153) :
    b * 100 + d - 4800 + m.tdiv 10 < 0 := by
  have hb' := CInt.tdiv_cases (show 0 < 146097 by decide) (4 * a + 3)
  have hc' := CInt.tdiv_cases (show 0 < 4 by decide) (b * 146097)
  have hd' := CInt.tdiv_cases (show 0 < 1461 by decide) (4 * c + 3)
  have he' := CInt.tdiv_cases (show 0 < 4 by decide) (1461 * d)
  have hm' := CInt.tdiv_cases (show 0 < 153 by decide) (5 * e + 2)
  have hten := CInt.tdiv_cases (show 0 < 10 by decide) m
  rw [← hb] at hb'
  rw [← hd] at hd'
  rw [← hm] at hm'
  have hb0 : b ≤ 0 := by omega
  have hc0 : -36530 ≤ c ∧ c ≤ 0 := by omega
  have hd0 : d ≤ 0 := by omega
  have he0 : e ≤ 366 := by omega
  omega

/-- **Only day numbers of the range give a year from 0 on.** -/
theorem range_of_getYearMonthDay {x : CInt} {ymd : YearMonthDay}
    (h : getYearMonthDay x = .ok ymd) (hyear : 0 ≤ ymd.year) :
    ∃ j, x = .ofInt j ∧ InDateRange j := by
  obtain ⟨_, -, h⟩ := exists_of_bind_eq_ok h
  obtain ⟨_, -, h⟩ := exists_of_bind_eq_ok h
  obtain ⟨year, hget, heq⟩ := exists_of_bind_eq_ok h
  cases heq
  clear h
  obtain ⟨a, ha⟩ : ∃ a : CInt, a = x + 32044 := ⟨_, rfl⟩
  obtain ⟨b, hb⟩ : ∃ b : CInt, b = (4 * a + 3) / 146097 := ⟨_, rfl⟩
  obtain ⟨c, hc⟩ : ∃ c : CInt, c = a - b * 146097 / 4 := ⟨_, rfl⟩
  obtain ⟨d, hd⟩ : ∃ d : CInt, d = (4 * c + 3) / 1461 := ⟨_, rfl⟩
  obtain ⟨e, he⟩ : ∃ e : CInt, e = c - 1461 * d / 4 := ⟨_, rfl⟩
  obtain ⟨m, hm⟩ : ∃ m : CInt, m = (5 * e + 2) / 153 := ⟨_, rfl⟩
  rw [← ha, ← hb, ← hc, ← hd, ← he, ← hm] at hget
  -- the values of the intermediate results
  obtain ⟨_, _, hsub, hm10, hyear', -⟩ := CInt.add_eq_val (CInt.get_eq_ok hget)
  obtain ⟨_, _, hadd, h4800, hsub', -⟩ := CInt.sub_eq_val hsub
  obtain ⟨_, d', hmul, hdval, hadd', -⟩ := CInt.add_eq_val hadd
  obtain ⟨b', _, hbval, h100, hmul', -⟩ := CInt.mul_eq_val hmul
  obtain ⟨m', _, hmval, h10, hdiv', -⟩ := CInt.div_eq_val hm10
  rw [← CInt.literal_eq_val h4800] at hsub'
  rw [← CInt.literal_eq_val h100] at hmul'
  rw [← CInt.literal_eq_val h10] at hdiv'
  obtain ⟨a', haval, hb', hrange⟩ :=
    CInt.affine_div_eq_val (k := 4) (l := 3) (d := 146097) (hb.symm.trans hbval)
  obtain ⟨c', hcval, hd', -⟩ :=
    CInt.affine_div_eq_val (k := 4) (l := 3) (d := 1461) (hd.symm.trans hdval)
  obtain ⟨e', heval, hm', -⟩ :=
    CInt.affine_div_eq_val (k := 5) (l := 2) (d := 153) (hm.symm.trans hmval)
  rw [haval] at ha
  obtain ⟨j, _, hj, hk, hsum, -⟩ := CInt.add_eq_val ha.symm
  rw [← CInt.literal_eq_val hk] at hsum
  have hc' : c' = a' - (b' * 146097).tdiv 4 := by
    rw [hcval, haval, hbval] at hc
    obtain ⟨_, _, hfirst, hmul, hsub⟩ := CInt.sub_div_eq_val (l := 4) hc.symm
    obtain ⟨_, _, hfactor, hk, hproduct, -⟩ := CInt.mul_eq_val hmul
    cases hfirst
    cases hfactor
    rw [← hsub, ← hproduct, ← CInt.literal_eq_val hk]
  have he' : e' = c' - (1461 * d').tdiv 4 := by
    rw [heval, hcval, hdval] at he
    obtain ⟨_, _, hfirst, hmul, hsub⟩ := CInt.sub_div_eq_val (l := 4) he.symm
    obtain ⟨_, _, hk, hfactor, hproduct, -⟩ := CInt.mul_eq_val hmul
    cases hfirst
    cases hfactor
    rw [← hsub, ← hproduct, ← CInt.literal_eq_val hk]
  have hlow : 0 ≤ a' := by
    by_contra hneg
    have hpast := year_neg (by omega) hb'.symm hc' hd'.symm he' hm'.symm
    have hpos : 0 ≤ year := hyear
    omega
  refine ⟨j, ?_, by omega⟩
  rw [hj, CInt.ofInt, if_pos (by omega)]

theorem valid_of_getYearMonthDay {x : CInt} {ymd : YearMonthDay}
    (h : getYearMonthDay x = .ok ymd) (hyear : 0 ≤ ymd.year) : ymd.Valid := by
  obtain ⟨j, rfl, hj⟩ := range_of_getYearMonthDay h hyear
  obtain ⟨ymd', hymd, hvalid, -⟩ := getYearMonthDay_eq hj
  cases h.symm.trans hymd
  exact hvalid

end Dxian
