import Mathlib.Data.Int.Notation
import Mathlib.Tactic.TypeStar

/-!
# The proleptic Gregorian calendar

Dates of any year, with the 4/100/400 rule for leap years. `dayNumber` counts the days
from 1 March of the year 0. It takes a year to begin in March, so that the leap day is
the last day of it.

## Main results

- `Date.dayNumber_lt_iff`, `Date.dayNumber_inj` — later dates have larger day numbers
- `Date.next_valid`, `Date.dayNumber_next` — the day after a date
- `valid_ofMarch`, `dayNumber_ofMarch` — the days of a year from March on
-/

namespace Gregorian

/-- The years with a 29 February. -/
@[reducible] def IsLeap (y : ℤ) : Prop := y % 4 = 0 ∧ (y % 100 ≠ 0 ∨ y % 400 = 0)

def daysInMonth (y m : ℤ) : ℤ :=
  if m = 2 then if IsLeap y then 29 else 28
  else if m = 4 ∨ m = 6 ∨ m = 9 ∨ m = 11 then 30 else 31

theorem daysInMonth_le (y m : ℤ) : daysInMonth y m ≤ 31 := by
  unfold daysInMonth
  split
  · split <;> omega
  · split <;> omega

/-- A year, a month and a day, valid or not. -/
@[ext] structure Date where
  year : ℤ
  month : ℤ
  day : ℤ
deriving DecidableEq

namespace Date

structure Valid (d : Date) : Prop where
  month_pos : 1 ≤ d.month
  month_le : d.month ≤ 12
  day_pos : 1 ≤ d.day
  day_le : d.day ≤ daysInMonth d.year d.month

/-- Earlier: the fields in lexicographic order. -/
@[reducible] def Before (d e : Date) : Prop :=
  d.year < e.year ∨ d.year = e.year ∧
    (d.month < e.month ∨ d.month = e.month ∧ d.day < e.day)

theorem before_or_eq_or_before (d e : Date) : d.Before e ∨ d = e ∨ e.Before d := by
  rw [Date.ext_iff]
  unfold Before
  omega

/-- The year that begins in March. -/
def marchYear (d : Date) : ℤ := if d.month ≤ 2 then d.year - 1 else d.year

/-- The month, from 0 for March to 11 for February. -/
def marchMonth (d : Date) : ℤ := if d.month ≤ 2 then d.month + 9 else d.month - 3

end Date

/-- The days before 1 March of the year `y`. -/
def yearStart (y : ℤ) : ℤ := 365 * y + y / 4 - y / 100 + y / 400

/-- The days from March on before the month `m`. -/
def monthStart (m : ℤ) : ℤ := (153 * m + 2) / 5

/-- The days since 1 March of the year 0. -/
def Date.dayNumber (d : Date) : ℤ := yearStart d.marchYear + monthStart d.marchMonth + d.day - 1

theorem yearStart_succ (y : ℤ) :
    yearStart (y + 1) = yearStart y + if IsLeap (y + 1) then 366 else 365 := by
  unfold yearStart
  split <;> omega

theorem yearStart_mono {y z : ℤ} (h : y ≤ z) : yearStart y ≤ yearStart z := by
  unfold yearStart
  omega

/-- The calendar repeats after 400 years. -/
theorem isLeap_add_period (y k : ℤ) : IsLeap (y + 400 * k) ↔ IsLeap y := by
  unfold IsLeap
  omega

theorem yearStart_add_period (y k : ℤ) : yearStart (y + 400 * k) = yearStart y + 146097 * k := by
  unfold yearStart
  omega

/-- The lengths of the months from March to January. -/
theorem monthStart_succ {m : ℤ} (hm : 0 ≤ m) (hm' : m ≤ 10) : monthStart (m + 1) =
    monthStart m + if m = 1 ∨ m = 3 ∨ m = 6 ∨ m = 8 then 30 else 31 := by
  have hcases : m = 0 ∨ m = 1 ∨ m = 2 ∨ m = 3 ∨ m = 4 ∨ m = 5 ∨ m = 6 ∨ m = 7 ∨ m = 8 ∨ m = 9 ∨
      m = 10 := by omega
  rcases hcases with rfl | rfl | rfl | rfl | rfl | rfl | rfl | rfl | rfl | rfl | rfl <;> rfl

theorem monthStart_mono {m n : ℤ} (h : m ≤ n) : monthStart m ≤ monthStart n := by
  unfold monthStart
  omega

namespace Date

variable {d e : Date}

theorem march_cases (d : Date) :
    d.month ≤ 2 ∧ d.marchYear = d.year - 1 ∧ d.marchMonth = d.month + 9 ∨
      2 < d.month ∧ d.marchYear = d.year ∧ d.marchMonth = d.month - 3 := by
  unfold marchYear marchMonth
  split <;> omega

theorem Valid.marchMonth_bounds (h : d.Valid) : 0 ≤ d.marchMonth ∧ d.marchMonth ≤ 11 := by
  have hm := h.month_pos
  have hm' := h.month_le
  have hcases := march_cases d
  omega

/-- A month ends before the next one starts. -/
theorem Valid.day_le_monthStart (h : d.Valid) {m : ℤ} (hm : d.marchMonth < m) (hm' : m ≤ 11) :
    monthStart d.marchMonth + d.day ≤ monthStart m := by
  have hday := h.day_le
  have hpos := h.month_pos
  have hle := h.month_le
  have hcases := march_cases d
  have hnext : monthStart (d.marchMonth + 1) ≤ monthStart m := monthStart_mono hm
  rw [monthStart_succ h.marchMonth_bounds.1 (by omega)] at hnext
  by_cases hshort : d.month = 4 ∨ d.month = 6 ∨ d.month = 9 ∨ d.month = 11
  · rw [daysInMonth, if_neg (by omega), if_pos hshort] at hday
    rw [if_pos (by omega)] at hnext
    omega
  · have hlong := daysInMonth_le d.year d.month
    rw [if_neg (by omega)] at hnext
    omega

/-- A year ends before the next one starts. -/
theorem Valid.dayNumber_lt_yearStart (h : d.Valid) :
    d.dayNumber < yearStart (d.marchYear + 1) := by
  have hday := h.day_le
  have hpos := h.month_pos
  have hcases := march_cases d
  rw [yearStart_succ, dayNumber]
  by_cases hfeb : d.month = 2
  · -- the last month: the year is as long as February is
    rw [daysInMonth, if_pos hfeb] at hday
    have hyear : d.marchYear + 1 = d.year := by omega
    have hmonth : d.marchMonth = 11 := by omega
    rw [hyear, hmonth, show monthStart 11 = 337 from rfl]
    split at hday <;> split <;> omega
  · have hle := h.month_le
    have hmonth : d.marchMonth < 11 := by omega
    have hend := h.day_le_monthStart hmonth (Int.le_refl _)
    rw [show monthStart 11 = 337 from rfl] at hend
    split <;> omega

/-- The order of the years that begin in March, of their months and of the days. -/
theorem before_iff_march (hd : d.Valid) (he : e.Valid) : d.Before e ↔
    d.marchYear < e.marchYear ∨ d.marchYear = e.marchYear ∧
      (d.marchMonth < e.marchMonth ∨ d.marchMonth = e.marchMonth ∧ d.day < e.day) := by
  have h1 := hd.month_pos
  have h2 := hd.month_le
  have h3 := he.month_pos
  have h4 := he.month_le
  have h5 := march_cases d
  have h6 := march_cases e
  unfold Before
  omega

theorem dayNumber_lt_of_before (hd : d.Valid) (he : e.Valid) (h : d.Before e) :
    d.dayNumber < e.dayNumber := by
  have hday := he.day_pos
  have hmonth := he.marchMonth_bounds
  rcases (before_iff_march hd he).mp h with hyear | ⟨hyear, hlt | ⟨heq, hlt⟩⟩
  · have hnext : d.dayNumber < yearStart e.marchYear :=
      Int.lt_of_lt_of_le hd.dayNumber_lt_yearStart (yearStart_mono (by omega))
    have hstart : 0 ≤ monthStart e.marchMonth := by
      unfold monthStart
      omega
    have heq : e.dayNumber = yearStart e.marchYear + monthStart e.marchMonth + e.day - 1 := rfl
    omega
  · have hnext := hd.day_le_monthStart hlt hmonth.2
    unfold dayNumber
    rw [hyear]
    omega
  · unfold dayNumber
    rw [hyear, heq]
    omega

/-- **The day numbers are in the order of the dates.** -/
theorem dayNumber_lt_iff (hd : d.Valid) (he : e.Valid) :
    d.dayNumber < e.dayNumber ↔ d.Before e := by
  constructor
  · intro hlt
    rcases d.before_or_eq_or_before e with h | rfl | h
    · exact h
    · omega
    · have := dayNumber_lt_of_before he hd h
      omega
  · exact dayNumber_lt_of_before hd he

theorem dayNumber_inj (hd : d.Valid) (he : e.Valid) (h : d.dayNumber = e.dayNumber) : d = e := by
  rcases d.before_or_eq_or_before e with hlt | heq | hlt
  · have := dayNumber_lt_of_before hd he hlt
    omega
  · exact heq
  · have := dayNumber_lt_of_before he hd hlt
    omega

/-- The day after a date. -/
def next (d : Date) : Date :=
  if d.day < daysInMonth d.year d.month then { d with day := d.day + 1 }
  else if d.month < 12 then ⟨d.year, d.month + 1, 1⟩
  else ⟨d.year + 1, 1, 1⟩

theorem daysInMonth_pos (y m : ℤ) : 1 ≤ daysInMonth y m := by
  unfold daysInMonth
  split
  · split <;> omega
  · split <;> omega

theorem next_valid (h : d.Valid) : d.next.Valid := by
  have hday := h.day_pos
  have hmonth := h.month_pos
  rw [next]
  split
  · exact ⟨h.month_pos, h.month_le, show 1 ≤ d.day + 1 by omega,
      show d.day + 1 ≤ daysInMonth d.year d.month by omega⟩
  · split
    · exact ⟨show 1 ≤ d.month + 1 by omega, show d.month + 1 ≤ 12 by omega, Int.le_refl 1,
        daysInMonth_pos ..⟩
    · exact ⟨Int.le_refl 1, show (1 : ℤ) ≤ 12 by decide, Int.le_refl 1, daysInMonth_pos ..⟩

/-- Within a month. -/
theorem dayNumber_succ_day (d : Date) :
    dayNumber { d with day := d.day + 1 } = d.dayNumber + 1 := by
  show yearStart d.marchYear + monthStart d.marchMonth + (d.day + 1) - 1 = _
  unfold dayNumber
  omega

/-- From the end of a month to the next one of the same year from March on. -/
theorem dayNumber_succ_month (h : d.Valid) (hend : d.day = daysInMonth d.year d.month)
    (hfeb : d.month ≠ 2) {e : Date} (hyear : e.marchYear = d.marchYear)
    (hmonth : e.marchMonth = d.marchMonth + 1) (hday : e.day = 1) :
    e.dayNumber = d.dayNumber + 1 := by
  have hbounds := h.marchMonth_bounds
  have hcases := march_cases d
  have hpos := h.month_pos
  have hle := h.month_le
  rw [daysInMonth, if_neg hfeb] at hend
  have hnext := monthStart_succ hbounds.1 (by omega)
  rw [dayNumber, dayNumber, hyear, hmonth, hday, hnext, hend]
  by_cases hshort : d.month = 4 ∨ d.month = 6 ∨ d.month = 9 ∨ d.month = 11
  · rw [if_pos hshort, if_pos (by omega)]
    omega
  · rw [if_neg hshort, if_neg (by omega)]
    omega

/-- From the end of February to March. -/
theorem dayNumber_succ_february (hend : d.day = daysInMonth d.year d.month) (hfeb : d.month = 2) :
    (⟨d.year, 3, 1⟩ : Date).dayNumber = d.dayNumber + 1 := by
  have hcases := march_cases d
  have hyear : d.marchYear = d.year - 1 := by omega
  have hmonth : d.marchMonth = 11 := by omega
  have hlast := yearStart_succ (d.year - 1)
  rw [Int.sub_add_cancel] at hlast
  rw [daysInMonth, if_pos hfeb] at hend
  show yearStart d.year + monthStart 0 + 1 - 1 = _
  rw [dayNumber, hyear, hmonth, hend, hlast, show monthStart 11 = 337 from rfl,
    show monthStart 0 = 0 from rfl]
  split <;> omega

/-- **The day after a date has the next day number.** -/
theorem dayNumber_next (h : d.Valid) : d.next.dayNumber = d.dayNumber + 1 := by
  have hle := h.day_le
  have hpos := h.month_pos
  have hmonth := h.month_le
  have hcases := march_cases d
  rw [next]
  split
  · exact dayNumber_succ_day d
  · have hend : d.day = daysInMonth d.year d.month := by omega
    split
    · have hcases' := march_cases ⟨d.year, d.month + 1, 1⟩
      dsimp only at hcases'
      by_cases hfeb : d.month = 2
      · rw [hfeb]
        exact dayNumber_succ_february hend hfeb
      · exact dayNumber_succ_month h hend hfeb (by omega) (by omega) rfl
    · have hcases' := march_cases ⟨d.year + 1, 1, 1⟩
      dsimp only at hcases'
      exact dayNumber_succ_month h hend (by omega) (by omega) (by omega) rfl

end Date

/-! ## The days of a year from March on -/

/-- The month with the day `e` of a year from March on, both counted from 0. -/
def monthOf (e : ℤ) : ℤ := (5 * e + 2) / 153

/-- The day `e` of the year `y` that begins in March. -/
def ofMarch (y e : ℤ) : Date where
  year := y + monthOf e / 10
  month := monthOf e + 3 - 12 * (monthOf e / 10)
  day := e - monthStart (monthOf e) + 1

variable {y e : ℤ}

theorem monthOf_bounds (he : 0 ≤ e) (he' : e ≤ 365) : 0 ≤ monthOf e ∧ monthOf e ≤ 11 := by
  unfold monthOf
  omega

theorem monthStart_monthOf (e : ℤ) :
    monthStart (monthOf e) ≤ e ∧ e < monthStart (monthOf e + 1) := by
  unfold monthStart monthOf
  omega

theorem march_ofMarch (he : 0 ≤ e) (he' : e ≤ 365) :
    (ofMarch y e).marchYear = y ∧ (ofMarch y e).marchMonth = monthOf e := by
  have hbounds := monthOf_bounds he he'
  have hmonth : (ofMarch y e).month = monthOf e + 3 - 12 * (monthOf e / 10) := rfl
  have hyear : (ofMarch y e).year = y + monthOf e / 10 := rfl
  have hcases := Date.march_cases (ofMarch y e)
  omega

theorem dayNumber_ofMarch (he : 0 ≤ e) (he' : e ≤ 365) :
    (ofMarch y e).dayNumber = yearStart y + e := by
  obtain ⟨hyear, hmonth⟩ := march_ofMarch (y := y) he he'
  have hday : (ofMarch y e).day = e - monthStart (monthOf e) + 1 := rfl
  rw [Date.dayNumber, hyear, hmonth]
  omega

theorem valid_ofMarch (he : 0 ≤ e) (he' : e < if IsLeap (y + 1) then 366 else 365) :
    (ofMarch y e).Valid := by
  have hle : e ≤ 365 := by
    split at he' <;> omega
  have hbounds := monthOf_bounds he hle
  have hstart := monthStart_monthOf e
  have hmonth : (ofMarch y e).month = monthOf e + 3 - 12 * (monthOf e / 10) := rfl
  have hyear : (ofMarch y e).year = y + monthOf e / 10 := rfl
  have hday : (ofMarch y e).day = e - monthStart (monthOf e) + 1 := rfl
  refine ⟨by omega, by omega, by omega, ?_⟩
  rw [hday]
  by_cases hfeb : monthOf e = 11
  · rw [hyear, hmonth, hfeb, show monthStart 11 = 337 from rfl, daysInMonth, if_pos (by omega),
      show y + 11 / 10 = y + 1 by omega]
    split at he' <;> rename_i hleap
    · rw [if_pos hleap]
      omega
    · rw [if_neg hleap]
      omega
  · have hnext := monthStart_succ hbounds.1 (by omega)
    rw [daysInMonth, if_neg (by omega)]
    split at hnext
    · rw [if_pos (by omega)]
      omega
    · rw [if_neg (by omega)]
      omega

end Gregorian
