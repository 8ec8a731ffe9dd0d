import Dxian.Base.Date

/-!
# The class `Date`

A `Date` is a Julian day number. Its `operator<` compares these, and the dates that they
stand for follow each other as in the calendar.

## Main results

- `getYearMonthDay_succ` — the next day number is the next day
- `Date.yearMonthDay_eq`, `Date.ofYearMonthDay_eq` — a `Date` and its day in the calendar
- `date_follows_calendar` — both functions and the comparisons, together
-/

namespace Dxian

/-- `class Date`. -/
structure Date where
  julianDayNumber : ℤ
deriving DecidableEq

namespace Date

/-- `Date::Date(int, int, int)`. -/
def ofYearMonthDay (year month day : CInt) : Except Fault Date := do
  let julianDayNumber ← (getJulianDayNumber year month day).get .overflow
  return ⟨julianDayNumber⟩

/-- `Date::yearMonthDay`. -/
def yearMonthDay (date : Date) : Except Fault YearMonthDay := getYearMonthDay date.julianDayNumber

/-- `operator<`. -/
def lt (x y : Date) : Bool := x.julianDayNumber < y.julianDayNumber

/-- `operator==`. -/
def eq (x y : Date) : Bool := x.julianDayNumber == y.julianDayNumber

end Date

/-- The next day number is the next day. -/
theorem getYearMonthDay_succ {j : ℤ} {ymd : YearMonthDay} (h : InDateRange (j + 1))
    (hvalid : ymd.Valid) (hj : julianDay ymd = j) : getYearMonthDay (j + 1 : ℤ) = .ok ymd.next := by
  obtain ⟨next, hnext, hvalid', hj'⟩ := getYearMonthDay_eq h
  have hday := Gregorian.Date.dayNumber_next hvalid
  unfold julianDay at hj hj'
  have heq : next = ymd.next :=
    Gregorian.Date.dayNumber_inj hvalid' (Gregorian.Date.next_valid hvalid) (by omega)
  rw [hnext, heq]

/-- The order of the day numbers is the order of the dates. -/
theorem julianDay_lt_iff {a b : YearMonthDay} (ha : a.Valid) (hb : b.Valid) :
    julianDay a < julianDay b ↔ a.Before b := by
  rw [← Gregorian.Date.dayNumber_lt_iff ha hb]
  unfold julianDay
  omega

theorem julianDay_inj {a b : YearMonthDay} (ha : a.Valid) (hb : b.Valid) :
    julianDay a = julianDay b ↔ a = b := by
  constructor
  · intro heq
    unfold julianDay at heq
    exact Gregorian.Date.dayNumber_inj ha hb (by omega)
  · intro heq
    rw [heq]

namespace Date

theorem yearMonthDay_eq {date : Date} (h : InDateRange date.julianDayNumber) :
    ∃ ymd : YearMonthDay, date.yearMonthDay = .ok ymd ∧ ymd.Valid ∧
      julianDay ymd = date.julianDayNumber :=
  getYearMonthDay_eq h

theorem ofYearMonthDay_eq {ymd : YearMonthDay} (hvalid : ymd.Valid)
    (h : InDateRange (julianDay ymd)) :
    ofYearMonthDay ymd.year ymd.month ymd.day = .ok ⟨julianDay ymd⟩ := by
  rw [ofYearMonthDay, getJulianDayNumber_eq hvalid h, CInt.get_ofInt _ (by omega)]
  rfl

end Date

/-- **`Date` follows the Gregorian calendar.** For the day numbers up to the last one with
which no `int` overflows: `getYearMonthDay` gives a valid date, for the next number the
next day, and `getJulianDayNumber` gives the number back. So the comparisons of two
`Date`s are those of the days that they stand for, and of the days that they are
constructed from. -/
theorem date_follows_calendar :
    (∀ j : ℤ, -32044 ≤ j → j < 536838867 → ∃ ymd : YearMonthDay, getYearMonthDay j = .ok ymd ∧
      ymd.Valid ∧ getYearMonthDay (j + 1 : ℤ) = .ok ymd.next ∧
      getJulianDayNumber ymd.year ymd.month ymd.day = .val j) ∧
    (∀ x y : Date, InDateRange x.julianDayNumber → InDateRange y.julianDayNumber →
      ∃ a b : YearMonthDay, x.yearMonthDay = .ok a ∧ y.yearMonthDay = .ok b ∧
        (x.lt y ↔ a.Before b) ∧ (x.eq y ↔ a = b)) ∧
    ∀ a b : YearMonthDay, a.Valid → b.Valid → InDateRange (julianDay a) →
      InDateRange (julianDay b) → ∃ x y, Date.ofYearMonthDay a.year a.month a.day = .ok x ∧
        Date.ofYearMonthDay b.year b.month b.day = .ok y ∧
        (x.lt y ↔ a.Before b) ∧ (x.eq y ↔ a = b) := by
  refine ⟨fun j hlow hhigh => ?_, fun x y hx hy => ?_, fun a b ha hb hja hjb => ?_⟩
  · obtain ⟨ymd, hymd, hvalid, hj⟩ := getYearMonthDay_eq (j := j) (by omega)
    refine ⟨ymd, hymd, hvalid, getYearMonthDay_succ (by omega) hvalid hj, ?_⟩
    rw [getJulianDayNumber_eq hvalid (by omega), hj]
    exact if_pos (by omega)
  · obtain ⟨a, ha, hvalid, hj⟩ := Date.yearMonthDay_eq hx
    obtain ⟨b, hb, hvalid', hj'⟩ := Date.yearMonthDay_eq hy
    refine ⟨a, b, ha, hb, ?_, ?_⟩
    · rw [← julianDay_lt_iff hvalid hvalid', hj, hj', Date.lt, decide_eq_true_eq]
    · rw [← julianDay_inj hvalid hvalid', hj, hj', Date.eq, beq_iff_eq]
  · refine ⟨_, _, Date.ofYearMonthDay_eq ha hja, Date.ofYearMonthDay_eq hb hjb, ?_, ?_⟩
    · rw [← julianDay_lt_iff ha hb, Date.lt, decide_eq_true_eq]
    · rw [← julianDay_inj ha hb, Date.eq, beq_iff_eq]

/-- The end of February of a century without a leap day. -/
theorem date_follows_calendar_1900 :
    (∃ ymd : YearMonthDay, getYearMonthDay (2415079 : ℤ) = .ok ymd ∧ ymd.Valid ∧
      getYearMonthDay (2415079 + 1 : ℤ) = .ok ymd.next ∧
      getJulianDayNumber ymd.year ymd.month ymd.day = .val 2415079) ∧
    (∃ a b : YearMonthDay, (⟨2415079⟩ : Date).yearMonthDay = .ok a ∧
      (⟨2415080⟩ : Date).yearMonthDay = .ok b ∧
      ((⟨2415079⟩ : Date).lt ⟨2415080⟩ ↔ a.Before b) ∧
      ((⟨2415079⟩ : Date).eq ⟨2415080⟩ ↔ a = b)) ∧
    ∃ x y, Date.ofYearMonthDay (1900 : ℤ) (2 : ℤ) (28 : ℤ) = .ok x ∧
      Date.ofYearMonthDay (1900 : ℤ) (3 : ℤ) (1 : ℤ) = .ok y ∧
      (x.lt y ↔ (⟨1900, 2, 28⟩ : YearMonthDay).Before ⟨1900, 3, 1⟩) ∧
      (x.eq y ↔ (⟨1900, 2, 28⟩ : YearMonthDay) = ⟨1900, 3, 1⟩) :=
  ⟨date_follows_calendar.1 2415079 (by decide) (by decide),
    date_follows_calendar.2.1 ⟨2415079⟩ ⟨2415080⟩ (by decide) (by decide),
    date_follows_calendar.2.2 ⟨1900, 2, 28⟩ ⟨1900, 3, 1⟩
      ⟨by decide, by decide, by decide, by decide⟩ ⟨by decide, by decide, by decide, by decide⟩
      (by decide) (by decide)⟩

end Dxian
