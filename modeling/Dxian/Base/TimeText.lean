import Dxian.Base.Calendar
import Dxian.Base.Gmtime
import Dxian.Base.Logging.Format
import Dxian.Base.Logging.Integers
import Dxian.Base.Logging.LogTime
import Dxian.Lib.Padded

/-!
# Times as texts

A `Date`, a `DateTime` and a `Timestamp` print themselves with their fields in columns, the
most significant one first.

## Main results

- `toFormattedString_lt_iff` — the texts of timestamps compare like the timestamps
- `texts_in_time_order` — so do those of dates and of times
- `toString_faithful` — `Timestamp::toString` loses nothing
-/

namespace Dxian

open LogTime

/-- `"%4d-%02d-%02d"`. -/
def isoDateText (ymd : YearMonthDay) : List UInt8 :=
  blankPadded 4 ymd.year ++ bytes "-" ++ zeroPadded 2 ymd.month ++ bytes "-" ++
    zeroPadded 2 ymd.day

/-- `"%04d-%02d-%02d %02d:%02d:%02d"`. -/
def isoText (dt : DateTime) : List UInt8 :=
  zeroPadded 4 dt.year ++ bytes "-" ++ zeroPadded 2 dt.month ++ bytes "-" ++
    zeroPadded 2 dt.day ++ bytes " " ++ zeroPadded 2 dt.hour ++ bytes ":" ++
    zeroPadded 2 dt.minute ++ bytes ":" ++ zeroPadded 2 dt.second

/-- `Date::toIsoString`. -/
def Date.toIsoString (date : Date) : Except Fault (List UInt8) := do
  let ymd ← date.yearMonthDay
  return snprintf 32 (isoDateText ymd)

/-- `DateTime::toIsoString`. -/
def DateTime.toIsoString (dt : DateTime) : List UInt8 := snprintf 64 (isoText dt)

namespace Timestamp

/-- `Timestamp::toString`. -/
def toString (t : Timestamp) : List UInt8 :=
  let seconds := t.microSecondsSinceEpoch.tdiv kMicroSecondsPerSecond
  let microseconds := t.microSecondsSinceEpoch.tmod kMicroSecondsPerSecond
  snprintf 32 (decimal seconds ++ bytes "." ++ zeroPadded 6 microseconds)

/-- `Timestamp::toFormattedString`. -/
def toFormattedString (t : Timestamp) (showMicroseconds : Bool) : List UInt8 :=
  let seconds := t.microSecondsSinceEpoch.tdiv kMicroSecondsPerSecond
  let dt := DateTime.ofTm (gmtimeR seconds)
  if showMicroseconds then
    let microseconds := CInt.cast (t.microSecondsSinceEpoch.tmod kMicroSecondsPerSecond)
    snprintf 64 (dateTimeText dt ++ bytes "." ++ zeroPadded 6 microseconds)
  else snprintf 64 (dateTimeText dt)

end Timestamp

/-! ## Columns -/

theorem characters_blank : Numeral.Characters 10 0x20 decimalChar where
  mono hlt he := by
    have htable : ∀ d e : Fin 10, d < e → decimalChar d < decimalChar e := by decide
    exact htable ⟨_, hlt.trans he⟩ ⟨_, he⟩ hlt
  fill _ hd := by
    have htable : ∀ d : Fin 10, 0x20 < decimalChar d := by decide
    exact htable ⟨_, hd⟩

theorem characters_zero : Numeral.Characters 10 0x30 decimalChar where
  mono := characters_blank.mono
  fill hpos hd := characters_blank.mono hpos hd

section Columns

variable {k : ℕ} {m n : ℤ} {r r' : List UInt8}

theorem decimal_of_nonneg (hn : 0 ≤ n) :
    decimal n = (Numeral.digits 10 n.natAbs).reverse.map decimalChar := by
  rw [decimal, if_neg (by omega), List.nil_append, List.map_reverse]

theorem length_decimal_of_nonneg (hn : 0 ≤ n) :
    (decimal n).length = (Numeral.digits 10 n.natAbs).length := by
  rw [decimal_of_nonneg hn, List.length_map, List.length_reverse]

theorem blankPadded_eq (hn : 0 ≤ n) :
    blankPadded k n = Numeral.padded 0x20 decimalChar 10 k n.natAbs := by
  rw [blankPadded, Numeral.padded, length_decimal_of_nonneg hn, decimal_of_nonneg hn]

theorem zeroPadded_eq (hn : 0 ≤ n) :
    zeroPadded k n = Numeral.padded 0x30 decimalChar 10 k n.natAbs := by
  rw [zeroPadded, Numeral.padded, length_decimal_of_nonneg hn, if_neg (by omega), List.nil_append,
    decimal_of_nonneg (Int.natCast_nonneg _), Int.natAbs_natCast]

/-- `n` has a column of `k` digits. -/
@[reducible] def InColumn (k : ℕ) (n : ℤ) : Prop := 0 ≤ n ∧ n < 10 ^ k

theorem natAbs_lt_pow (h : InColumn k n) : n.natAbs < 10 ^ k := by
  have hcast : (n.natAbs : ℤ) < ((10 ^ k : ℕ) : ℤ) := by
    rw [Int.natAbs_of_nonneg h.1]
    exact_mod_cast h.2
  exact Int.ofNat_lt.mp hcast

theorem padded_append_lt_iff {fill : UInt8} (h : Numeral.Characters 10 fill decimalChar)
    (hk : 0 < k) (hm : InColumn k m) (hn : InColumn k n) :
    Numeral.padded fill decimalChar 10 k m.natAbs ++ r <
      Numeral.padded fill decimalChar 10 k n.natAbs ++ r' ↔ m < n ∨ m = n ∧ r < r' := by
  have hm' := natAbs_lt_pow hm
  have hn' := natAbs_lt_pow hn
  rw [List.append_lt_append_iff (by
      rw [Numeral.length_padded (by decide) hk hm', Numeral.length_padded (by decide) hk hn']),
    Numeral.padded_lt_iff h (by decide) hk hm' hn', Numeral.padded_inj h (by decide) hk hm' hn']
  have hlt : m.natAbs < n.natAbs ↔ m < n := by omega
  have heq : m.natAbs = n.natAbs ↔ m = n := by omega
  rw [hlt, heq]

theorem blankPadded_append_lt_iff (hk : 0 < k) (hm : InColumn k m) (hn : InColumn k n) :
    blankPadded k m ++ r < blankPadded k n ++ r' ↔ m < n ∨ m = n ∧ r < r' := by
  rw [blankPadded_eq hm.1, blankPadded_eq hn.1, padded_append_lt_iff characters_blank hk hm hn]

theorem zeroPadded_append_lt_iff (hk : 0 < k) (hm : InColumn k m) (hn : InColumn k n) :
    zeroPadded k m ++ r < zeroPadded k n ++ r' ↔ m < n ∨ m = n ∧ r < r' := by
  rw [zeroPadded_eq hm.1, zeroPadded_eq hn.1, padded_append_lt_iff characters_zero hk hm hn]

theorem zeroPadded_lt_iff (hk : 0 < k) (hm : InColumn k m) (hn : InColumn k n) :
    zeroPadded k m < zeroPadded k n ↔ m < n := by
  rw [← List.append_nil (zeroPadded k m), ← List.append_nil (zeroPadded k n),
    zeroPadded_append_lt_iff hk hm hn]
  simp

theorem length_column (hk : 0 < k) (hn : InColumn k n) :
    (blankPadded k n).length = k ∧ (zeroPadded k n).length = k := by
  have hn' := natAbs_lt_pow hn
  rw [blankPadded_eq hn.1, zeroPadded_eq hn.1, Numeral.length_padded (by decide) hk hn',
    Numeral.length_padded (by decide) hk hn']
  exact ⟨rfl, rfl⟩

end Columns

theorem snprintf_of_lt {size : ℕ} {text : List UInt8} (h : text.length < size) :
    snprintf size text = text :=
  List.take_of_length_le (by omega)

/-! ## Years with four digits -/

theorem julianDay_lt_newYear_iff {ymd : YearMonthDay} (h : ymd.Valid) (y : ℤ) :
    julianDay ymd < julianDay ⟨y, 1, 1⟩ ↔ ymd.year < y := by
  have hnew : (⟨y, 1, 1⟩ : YearMonthDay).Valid :=
    ⟨Int.le_refl 1, show (1 : ℤ) ≤ 12 by decide, Int.le_refl 1,
      Gregorian.Date.daysInMonth_pos ..⟩
  have hmonth := h.month_pos
  have hday := h.day_pos
  rw [julianDay_lt_iff h hnew]
  unfold Gregorian.Date.Before
  dsimp only
  omega

theorem inColumn_year_iff {ymd : YearMonthDay} (h : ymd.Valid) :
    InColumn 4 ymd.year ↔ 1721060 ≤ julianDay ymd ∧ julianDay ymd < 5373485 := by
  have hlow := julianDay_lt_newYear_iff h 0
  have hhigh := julianDay_lt_newYear_iff h 10000
  rw [show julianDay ⟨0, 1, 1⟩ = 1721060 by decide] at hlow
  rw [show julianDay ⟨10000, 1, 1⟩ = 5373485 by decide] at hhigh
  unfold InColumn
  omega

theorem columns_of_valid {ymd : YearMonthDay} (h : ymd.Valid) :
    InColumn 2 ymd.month ∧ InColumn 2 ymd.day := by
  have hmonth := h.month_pos
  have hmonth' := h.month_le
  have hday := h.day_pos
  have hday' := Int.le_trans h.day_le (Gregorian.daysInMonth_le ..)
  unfold InColumn
  omega

/-- A time with a column for each field. -/
structure DateTime.Columns (dt : DateTime) : Prop extends dt.Valid where
  year : InColumn 4 dt.year

namespace DateTime.Columns

variable {dt : DateTime}

theorem month (h : dt.Columns) : InColumn 2 dt.month := (columns_of_valid h.date).1

theorem day (h : dt.Columns) : InColumn 2 dt.day := (columns_of_valid h.date).2

theorem time (h : dt.Columns) :
    InColumn 2 dt.hour ∧ InColumn 2 dt.minute ∧ InColumn 2 dt.second := by
  have hhour := h.hour
  have hminute := h.minute
  have hsecond := h.second
  unfold InColumn
  omega

theorem length_dateTimeText (h : dt.Columns) : (dateTimeText dt).length = 17 :=
  LogTime.length_dateTimeText h.toValid h.year.1 (Int.le_sub_one_of_lt h.year.2)

end DateTime.Columns

/-- The seconds of the years 0 to 9999. -/
theorem civil_columns {seconds : ℤ} (hlow : -62167219200 ≤ seconds)
    (hhigh : seconds < 253402300800) : (civil seconds).Columns := by
  have hvalid := civil_valid seconds
  have hbounds := hvalid.secondOfDay_bounds
  have hsecond := utcSecond_civil seconds
  refine ⟨hvalid, (inColumn_year_iff hvalid.date).mpr ?_⟩
  unfold DateTime.utcSecond at hsecond
  omega

/-! ## The order of the texts -/

section Order

variable {dt du : DateTime} {r r' : List UInt8}

/-- `dateTimeText` shows the seconds in their order. -/
theorem dateTimeText_append_lt_iff (hdt : dt.Columns) (hdu : du.Columns) :
    dateTimeText dt ++ r < dateTimeText du ++ r' ↔
      dt.utcSecond < du.utcSecond ∨ dt = du ∧ r < r' := by
  obtain ⟨hhour, hminute, hsecond⟩ := hdt.time
  obtain ⟨hhour', hminute', hsecond'⟩ := hdu.time
  simp only [dateTimeText, List.append_assoc]
  rw [blankPadded_append_lt_iff (by decide) hdt.year hdu.year,
    zeroPadded_append_lt_iff (by decide) hdt.month hdu.month,
    zeroPadded_append_lt_iff (by decide) hdt.day hdu.day, List.append_left_lt_iff,
    zeroPadded_append_lt_iff (by decide) hhour hhour', List.append_left_lt_iff,
    zeroPadded_append_lt_iff (by decide) hminute hminute', List.append_left_lt_iff,
    zeroPadded_append_lt_iff (by decide) hsecond hsecond',
    DateTime.utcSecond_lt_iff hdt.toValid hdu.toValid, DateTime.ext_iff]
  simp only [DateTime.fields, List.cons_lt_cons_iff, List.lt_irrefl, and_or_left, or_assoc,
    and_assoc, and_false, or_false]

theorem dateTimeText_lt_iff (hdt : dt.Columns) (hdu : du.Columns) :
    dateTimeText dt < dateTimeText du ↔ dt.utcSecond < du.utcSecond := by
  rw [← List.append_nil (dateTimeText dt), ← List.append_nil (dateTimeText du),
    dateTimeText_append_lt_iff hdt hdu]
  simp

theorem DateTime.Columns.length_isoText (h : dt.Columns) : (isoText dt).length = 19 := by
  obtain ⟨hhour, hminute, hsecond⟩ := h.time
  simp only [isoText, List.length_append, (length_column (by decide) h.year).2,
    (length_column (by decide) h.month).2, (length_column (by decide) h.day).2,
    (length_column (by decide) hhour).2, (length_column (by decide) hminute).2,
    (length_column (by decide) hsecond).2]
  decide

theorem DateTime.Columns.toIsoString_eq (h : dt.Columns) : dt.toIsoString = isoText dt :=
  snprintf_of_lt (by rw [h.length_isoText]; decide)

theorem DateTime.Columns.fromUtcTime (h : dt.Columns) :
    Dxian.fromUtcTime dt = .ok dt.utcSecond := by
  have hrange := (inColumn_year_iff h.date).mp h.year
  exact fromUtcTime_eq h.toValid ⟨by omega, by omega⟩

theorem toIsoString_lt_iff (hdt : dt.Columns) (hdu : du.Columns) :
    dt.toIsoString < du.toIsoString ↔ dt.utcSecond < du.utcSecond := by
  obtain ⟨hhour, hminute, hsecond⟩ := hdt.time
  obtain ⟨hhour', hminute', hsecond'⟩ := hdu.time
  rw [hdt.toIsoString_eq, hdu.toIsoString_eq]
  simp only [isoText, List.append_assoc]
  rw [zeroPadded_append_lt_iff (by decide) hdt.year hdu.year, List.append_left_lt_iff,
    zeroPadded_append_lt_iff (by decide) hdt.month hdu.month, List.append_left_lt_iff,
    zeroPadded_append_lt_iff (by decide) hdt.day hdu.day, List.append_left_lt_iff,
    zeroPadded_append_lt_iff (by decide) hhour hhour', List.append_left_lt_iff,
    zeroPadded_append_lt_iff (by decide) hminute hminute', List.append_left_lt_iff,
    zeroPadded_lt_iff (by decide) hsecond hsecond',
    DateTime.utcSecond_lt_iff hdt.toValid hdu.toValid]
  simp only [DateTime.fields, List.cons_lt_cons_iff, List.lt_irrefl, and_false, or_false]

end Order

theorem length_isoDateText {ymd : YearMonthDay} (hvalid : ymd.Valid) (hyear : InColumn 4 ymd.year) :
    (isoDateText ymd).length = 10 := by
  obtain ⟨hmonth, hday⟩ := columns_of_valid hvalid
  simp only [isoDateText, List.length_append, (length_column (by decide) hyear).1,
    (length_column (by decide) hmonth).2, (length_column (by decide) hday).2]
  decide

theorem isoDateText_lt_iff {ymd ymd' : YearMonthDay} (hvalid : ymd.Valid) (hvalid' : ymd'.Valid)
    (hyear : InColumn 4 ymd.year) (hyear' : InColumn 4 ymd'.year) :
    isoDateText ymd < isoDateText ymd' ↔ ymd.Before ymd' := by
  obtain ⟨hmonth, hday⟩ := columns_of_valid hvalid
  obtain ⟨hmonth', hday'⟩ := columns_of_valid hvalid'
  simp only [isoDateText, List.append_assoc]
  rw [blankPadded_append_lt_iff (by decide) hyear hyear', List.append_left_lt_iff,
    zeroPadded_append_lt_iff (by decide) hmonth hmonth', List.append_left_lt_iff,
    zeroPadded_lt_iff (by decide) hday hday']

/-- The dates of the years 0 to 9999. -/
@[reducible] def Date.InYears (date : Date) : Prop :=
  1721060 ≤ date.julianDayNumber ∧ date.julianDayNumber < 5373485

theorem Date.InYears.toIsoString_eq {date : Date} (h : date.InYears) :
    ∃ ymd : YearMonthDay, ymd.Valid ∧ InColumn 4 ymd.year ∧
      julianDay ymd = date.julianDayNumber ∧ date.toIsoString = .ok (isoDateText ymd) := by
  obtain ⟨ymd, hymd, hvalid, hj⟩ := date.yearMonthDay_eq ⟨by omega, by omega⟩
  have hyear := (inColumn_year_iff hvalid).mpr (by omega)
  refine ⟨ymd, hvalid, hyear, hj, ?_⟩
  rw [Date.toIsoString, hymd]
  exact congrArg Except.ok (snprintf_of_lt (by rw [length_isoDateText hvalid hyear]; decide))

/-- Texts in the order of the values are equal only for equal values. -/
theorem texts_eq_iff {α : Type*} [LinearOrder α] {text text' : List UInt8} {a b : α}
    (hlt : text < text' ↔ a < b) (hgt : text' < text ↔ b < a) (heq : a = b → text = text') :
    text = text' ↔ a = b := by
  refine ⟨?_, heq⟩
  rintro rfl
  have hirrefl : ¬ text < text := List.lt_irrefl text
  exact le_antisymm (not_lt.mp (mt hgt.mpr hirrefl)) (not_lt.mp (mt hlt.mpr hirrefl))

/-! ## Reading numerals back -/

namespace Denotes

variable {text : List UInt8} {n : ℤ} {ds : List ℕ}

theorem zeroPadded (k : ℕ) (n : ℤ) : Denotes (LogTime.zeroPadded k n) n
    (List.replicate (k - (Dxian.decimal n).length) 0 ++
      (Numeral.digits 10 n.natAbs).reverse) := by
  have hcanonical := Numeral.canonical_digits (b := 10) (by decide) n.natAbs
  refine ⟨fun d hd => ?_, ?_, ?_, ?_⟩
  · rcases List.mem_append.mp hd with hzero | hdigit
    · rw [List.eq_of_mem_replicate hzero]
      decide
    · exact hcanonical.digit d hdigit
  · exact List.append_ne_nil_of_right_ne_nil _ hcanonical.nonempty
  · rw [Numeral.value_replicate_append, hcanonical.value]
  · rw [LogTime.zeroPadded, List.map_append, List.map_replicate,
      decimal_of_nonneg (Int.natCast_nonneg _), Int.natAbs_natCast, List.append_assoc]
    rfl

theorem dot_notMem (h : Denotes text n ds) : 0x2e ∉ text := by
  intro hmem
  rw [h.text_eq, List.mem_append, List.mem_map] at hmem
  rcases hmem with hsign | ⟨d, hd, hchar⟩
  · split at hsign
    · exact absurd hsign (by decide)
    · cases hsign
  · have hnat := decimalChar_toNat (h.digit d hd)
    rw [hchar] at hnat
    have hdot : (0x2e : UInt8).toNat = 46 := rfl
    omega

end Denotes

/-- The part in front of the first `c`. -/
theorem eq_of_append_cons_eq {α : Type*} {c : α} {l l' r r' : List α} (hl : c ∉ l) (hl' : c ∉ l')
    (h : l ++ c :: r = l' ++ c :: r') : l = l' ∧ r = r' := by
  induction l generalizing l' with
  | nil =>
    cases l' with
    | nil => exact ⟨rfl, List.tail_eq_of_cons_eq h⟩
    | cons x l' => exact absurd (List.head_eq_of_cons_eq h) (List.ne_of_not_mem_cons hl')
  | cons x l ih =>
    cases l' with
    | nil => exact absurd (List.head_eq_of_cons_eq h).symm (List.ne_of_not_mem_cons hl)
    | cons x' l' =>
      obtain ⟨rfl, hrest⟩ := List.cons.inj h
      obtain ⟨rfl, rfl⟩ := ih (List.not_mem_of_not_mem_cons hl)
        (List.not_mem_of_not_mem_cons hl') hrest
      exact ⟨rfl, rfl⟩

namespace Timestamp

/-- The timestamps of 1970 to 9999. -/
@[reducible] def InYears (t : Timestamp) : Prop :=
  0 ≤ t.microSecondsSinceEpoch ∧ t.microSecondsSinceEpoch < 253402300800000000

variable {t t' : Timestamp}

theorem toFormattedString_eq (h : (civil (secondOf t.microSecondsSinceEpoch)).Columns) :
    t.toFormattedString true = dateTimeText (civil (secondOf t.microSecondsSinceEpoch)) ++
      bytes "." ++ zeroPadded 6 (microsecondsOf t.microSecondsSinceEpoch) ∧
    t.toFormattedString false = dateTimeText (civil (secondOf t.microSecondsSinceEpoch)) := by
  obtain ⟨hlow, hhigh⟩ := microsecondsOf_bounds t.microSecondsSinceEpoch
  have hcast : CInt.cast (microsecondsOf t.microSecondsSinceEpoch) =
      microsecondsOf t.microSecondsSinceEpoch := CInt.cast_of_inRange (by omega)
  have hus : (zeroPadded 6 (microsecondsOf t.microSecondsSinceEpoch)).length ≤ 20 := by
    have hdecimal : (decimal (microsecondsOf t.microSecondsSinceEpoch)).length ≤ 20 :=
      length_decimal_le (by omega) (by omega)
    rw [length_zeroPadded]
    omega
  have htime := h.length_dateTimeText
  constructor
  · have htrue : t.toFormattedString true =
        snprintf 64 (dateTimeText (civil (secondOf t.microSecondsSinceEpoch)) ++ bytes "." ++
          zeroPadded 6 (CInt.cast (microsecondsOf t.microSecondsSinceEpoch))) := by
      simp only [toFormattedString, civil, secondOf, microsecondsOf, if_true]
    rw [htrue, hcast]
    apply snprintf_of_lt
    rw [List.length_append, List.length_append, htime, show (bytes ".").length = 1 from rfl]
    omega
  · have hfalse : t.toFormattedString false =
        snprintf 64 (dateTimeText (civil (secondOf t.microSecondsSinceEpoch))) := by
      simp only [toFormattedString, civil, secondOf, Bool.false_eq_true, if_false]
    rw [hfalse]
    apply snprintf_of_lt
    omega

theorem second_add_microsecond (t : Timestamp) : t.microSecondsSinceEpoch =
    secondOf t.microSecondsSinceEpoch * 1000000 + microsecondsOf t.microSecondsSinceEpoch := by
  have hsum : microsecondsOf t.microSecondsSinceEpoch +
      1000000 * secondOf t.microSecondsSinceEpoch = t.microSecondsSinceEpoch :=
    Int.tmod_add_mul_tdiv ..
  omega

theorem InYears.columns (h : t.InYears) :
    (civil (secondOf t.microSecondsSinceEpoch)).Columns ∧
      InColumn 6 (microsecondsOf t.microSecondsSinceEpoch) := by
  obtain ⟨hlow, hhigh⟩ := h
  have hbounds := microsecondsOf_bounds t.microSecondsSinceEpoch
  have hpos : 0 ≤ microsecondsOf t.microSecondsSinceEpoch := Int.tmod_nonneg _ hlow
  have hsum := second_add_microsecond t
  exact ⟨civil_columns (by omega) (by omega), hpos, hbounds.2⟩

theorem InYears.length_toFormattedString (h : t.InYears) :
    (t.toFormattedString true).length = 24 ∧ (t.toFormattedString false).length = 17 := by
  obtain ⟨hcolumns, hus⟩ := h.columns
  obtain ⟨htrue, hfalse⟩ := toFormattedString_eq hcolumns
  rw [htrue, hfalse, List.length_append, List.length_append, hcolumns.length_dateTimeText,
    (length_column (by decide) hus).2]
  exact ⟨rfl, rfl⟩

/-- With the microseconds the texts are in the order of the timestamps, without them in the
order of the seconds. -/
theorem toFormattedString_lt_iff (h : t.InYears) (h' : t'.InYears) :
    (t.toFormattedString true < t'.toFormattedString true ↔ t < t') ∧
    (t.toFormattedString false < t'.toFormattedString false ↔
      secondOf t.microSecondsSinceEpoch < secondOf t'.microSecondsSinceEpoch) := by
  obtain ⟨hcolumns, hus⟩ := h.columns
  obtain ⟨hcolumns', hus'⟩ := h'.columns
  have hsum := second_add_microsecond t
  have hsum' := second_add_microsecond t'
  obtain ⟨htrue, hfalse⟩ := toFormattedString_eq hcolumns
  obtain ⟨htrue', hfalse'⟩ := toFormattedString_eq hcolumns'
  refine ⟨?_, ?_⟩
  · rw [htrue, htrue', List.append_assoc, List.append_assoc,
      dateTimeText_append_lt_iff hcolumns hcolumns', utcSecond_civil, utcSecond_civil,
      List.append_left_lt_iff, zeroPadded_lt_iff (by decide) hus hus', Timestamp.lt_iff]
    obtain ⟨hlow, hhigh⟩ := hus
    obtain ⟨hlow', hhigh'⟩ := hus'
    constructor
    · rintro (hlt | ⟨heq, hlt⟩)
      · omega
      · have hsecond := congrArg DateTime.utcSecond heq
        rw [utcSecond_civil, utcSecond_civil] at hsecond
        omega
    · intro hlt
      by_cases heq : secondOf t.microSecondsSinceEpoch = secondOf t'.microSecondsSinceEpoch
      · exact .inr ⟨congrArg civil heq, by omega⟩
      · exact .inl (by omega)
  · rw [hfalse, hfalse', dateTimeText_lt_iff hcolumns hcolumns', utcSecond_civil, utcSecond_civil]

/-- The `int64_t`s. -/
@[reducible] def InRange (t : Timestamp) : Prop :=
  -2 ^ 63 ≤ t.microSecondsSinceEpoch ∧ t.microSecondsSinceEpoch < 2 ^ 63

theorem toString_eq (h : t.InRange) : t.toString.length ≤ 22 ∧
    t.toString = decimal (secondOf t.microSecondsSinceEpoch) ++
      0x2e :: zeroPadded 6 (microsecondsOf t.microSecondsSinceEpoch) := by
  obtain ⟨hlow, hhigh⟩ := h
  obtain ⟨hlow', hhigh'⟩ := microsecondsOf_bounds t.microSecondsSinceEpoch
  have hsum := second_add_microsecond t
  have hseconds : (decimal (secondOf t.microSecondsSinceEpoch)).length ≤ 14 := by
    by_cases hneg : secondOf t.microSecondsSinceEpoch < 0
    · exact (length_decimal_neg_le_iff (k := 13) (by decide) hneg).mpr (by omega)
    · exact (length_decimal_le_iff (k := 14) (by decide) (by omega)).mpr (by omega)
  have hus : (zeroPadded 6 (microsecondsOf t.microSecondsSinceEpoch)).length ≤ 7 := by
    rw [length_zeroPadded]
    by_cases hneg : microsecondsOf t.microSecondsSinceEpoch < 0
    · have hdecimal := (length_decimal_neg_le_iff (k := 6) (by decide) hneg).mpr (by omega)
      omega
    · have hdecimal := (length_decimal_le_iff (k := 6) (by decide) (Int.not_lt.mp hneg)).mpr
        (by omega)
      omega
  have htext : t.toString = snprintf 32 (decimal (secondOf t.microSecondsSinceEpoch) ++
      bytes "." ++ zeroPadded 6 (microsecondsOf t.microSecondsSinceEpoch)) := rfl
  have hdot : bytes "." = [0x2e] := rfl
  rw [hdot, List.append_assoc, List.singleton_append] at htext
  have hlength : (decimal (secondOf t.microSecondsSinceEpoch) ++
      0x2e :: zeroPadded 6 (microsecondsOf t.microSecondsSinceEpoch)).length ≤ 22 := by
    rw [List.length_append, List.length_cons]
    omega
  rw [snprintf_of_lt (by omega)] at htext
  rw [htext]
  exact ⟨hlength, rfl⟩

end Timestamp

/-- **The texts are in the order of time.** For dates and times of the years 0 to 9999, and
timestamps of 1970 to 9999: nothing is cut off, strings compare like the values, and are equal
only for equal values. Without the microseconds the text of a timestamp shows its second. -/
theorem texts_in_time_order :
    (∀ d d' : Date, d.InYears → d'.InYears →
      ∃ text text', d.toIsoString = .ok text ∧ d'.toIsoString = .ok text' ∧ text.length = 10 ∧
        (text < text' ↔ d.lt d') ∧ (text = text' ↔ d.eq d')) ∧
    (∀ dt du : DateTime, dt.Columns → du.Columns →
      ∃ s s', fromUtcTime dt = .ok s ∧ fromUtcTime du = .ok s' ∧ dt.toIsoString.length = 19 ∧
        (dt.toIsoString < du.toIsoString ↔ s < s') ∧
        (dt.toIsoString = du.toIsoString ↔ dt = du)) ∧
    ∀ t t' : Timestamp, t.InYears → t'.InYears →
      (t.toFormattedString true).length = 24 ∧ (t.toFormattedString false).length = 17 ∧
      (t.toFormattedString true < t'.toFormattedString true ↔ t < t') ∧
      (t.toFormattedString true = t'.toFormattedString true ↔ t = t') ∧
      (t.toFormattedString false < t'.toFormattedString false ↔
        secondOf t.microSecondsSinceEpoch < secondOf t'.microSecondsSinceEpoch) := by
  refine ⟨fun d d' hd hd' => ?_, fun dt du hdt hdu => ?_, fun t t' ht ht' => ?_⟩
  · obtain ⟨ymd, hvalid, hyear, hj, htext⟩ := hd.toIsoString_eq
    obtain ⟨ymd', hvalid', hyear', hj', htext'⟩ := hd'.toIsoString_eq
    have hlt := (isoDateText_lt_iff hvalid hvalid' hyear hyear').trans
      (julianDay_lt_iff hvalid hvalid').symm
    have hgt := (isoDateText_lt_iff hvalid' hvalid hyear' hyear).trans
      (julianDay_lt_iff hvalid' hvalid).symm
    have heq := texts_eq_iff hlt hgt fun h => by rw [(julianDay_inj hvalid hvalid').mp h]
    rw [hj, hj'] at hlt heq
    exact ⟨_, _, htext, htext', length_isoDateText hvalid hyear, hlt.trans (by simp [Date.lt]),
      heq.trans (by simp [Date.eq])⟩
  · have hlt := toIsoString_lt_iff hdt hdu
    have hgt := toIsoString_lt_iff hdu hdt
    have heq := texts_eq_iff hlt hgt fun hsecond => by
      rw [DateTime.utcSecond_inj hdt.toValid hdu.toValid hsecond]
    have hsecond : dt.utcSecond = du.utcSecond ↔ dt = du :=
      ⟨DateTime.utcSecond_inj hdt.toValid hdu.toValid, fun h => by rw [h]⟩
    exact ⟨dt.utcSecond, du.utcSecond, hdt.fromUtcTime, hdu.fromUtcTime,
      hdt.toIsoString_eq ▸ hdt.length_isoText, hlt, heq.trans hsecond⟩
  · obtain ⟨hlt, hseconds⟩ := Timestamp.toFormattedString_lt_iff ht ht'
    obtain ⟨hgt, -⟩ := Timestamp.toFormattedString_lt_iff ht' ht
    have heq := texts_eq_iff hlt hgt fun h => by rw [h]
    obtain ⟨hlength, hlength'⟩ := ht.length_toFormattedString
    exact ⟨hlength, hlength', hlt, heq, hseconds⟩

/-- The last day of 1999 and the day after it. -/
theorem texts_in_time_order_2000 :
    (∃ text text', (⟨2451544⟩ : Date).toIsoString = .ok text ∧
      (⟨2451545⟩ : Date).toIsoString = .ok text' ∧ text.length = 10 ∧
      (text < text' ↔ (⟨2451544⟩ : Date).lt ⟨2451545⟩) ∧
      (text = text' ↔ (⟨2451544⟩ : Date).eq ⟨2451545⟩)) ∧
    (∃ s s', fromUtcTime ⟨1999, 12, 31, 23, 59, 59⟩ = .ok s ∧
      fromUtcTime ⟨2000, 1, 1, 0, 0, 0⟩ = .ok s' ∧
      (⟨1999, 12, 31, 23, 59, 59⟩ : DateTime).toIsoString.length = 19 ∧
      ((⟨1999, 12, 31, 23, 59, 59⟩ : DateTime).toIsoString <
        (⟨2000, 1, 1, 0, 0, 0⟩ : DateTime).toIsoString ↔ s < s') ∧
      ((⟨1999, 12, 31, 23, 59, 59⟩ : DateTime).toIsoString =
        (⟨2000, 1, 1, 0, 0, 0⟩ : DateTime).toIsoString ↔
          (⟨1999, 12, 31, 23, 59, 59⟩ : DateTime) = ⟨2000, 1, 1, 0, 0, 0⟩)) ∧
    ((⟨946684799999999⟩ : Timestamp).toFormattedString true <
      (⟨946684800000000⟩ : Timestamp).toFormattedString true ↔
        (⟨946684799999999⟩ : Timestamp) < ⟨946684800000000⟩) := by
  have hdt : (⟨1999, 12, 31, 23, 59, 59⟩ : DateTime).Columns :=
    ⟨⟨⟨by decide, by decide, by decide, by decide⟩, by decide, by decide, by decide⟩, by decide⟩
  have hdu : (⟨2000, 1, 1, 0, 0, 0⟩ : DateTime).Columns :=
    ⟨⟨⟨by decide, by decide, by decide, by decide⟩, by decide, by decide, by decide⟩, by decide⟩
  exact ⟨texts_in_time_order.1 _ _ (by decide) (by decide), texts_in_time_order.2.1 _ _ hdt hdu,
    (texts_in_time_order.2.2 ⟨946684799999999⟩ ⟨946684800000000⟩ (by decide) (by decide)).2.2.1⟩

/-- **`Timestamp::toString` loses nothing.** For every `int64_t` the text is not cut off, and
no other timestamp has the same text. -/
theorem toString_faithful (t t' : Timestamp) (h : t.InRange) (h' : t'.InRange) :
    t.toString.length ≤ 22 ∧ (t.toString = t'.toString ↔ t = t') := by
  obtain ⟨hlength, htext⟩ := Timestamp.toString_eq h
  obtain ⟨-, htext'⟩ := Timestamp.toString_eq h'
  refine ⟨hlength, fun heq => ?_, fun heq => by rw [heq]⟩
  rw [htext, htext'] at heq
  obtain ⟨hseconds, hus⟩ := eq_of_append_cons_eq (Denotes.decimal _).dot_notMem
    (Denotes.decimal _).dot_notMem heq
  have hdenotes := Denotes.decimal (secondOf t.microSecondsSinceEpoch)
  rw [hseconds] at hdenotes
  have hsecond := hdenotes.unique (Denotes.decimal _)
  have hdenotes' := Denotes.zeroPadded 6 (microsecondsOf t.microSecondsSinceEpoch)
  rw [hus] at hdenotes'
  have hmicrosecond := hdenotes'.unique (Denotes.zeroPadded 6 _)
  have hsum := Timestamp.second_add_microsecond t
  have hsum' := Timestamp.second_add_microsecond t'
  apply Timestamp.microSecondsSinceEpoch_injective
  rw [hsum, hsum', hsecond, hmicrosecond]

/-- Five microseconds before 1970, and the smallest `int64_t`. -/
theorem toString_faithful_before_1970 :
    (⟨-5⟩ : Timestamp).toString.length ≤ 22 ∧
      ((⟨-5⟩ : Timestamp).toString = (⟨-2 ^ 63⟩ : Timestamp).toString ↔
        (⟨-5⟩ : Timestamp) = ⟨-2 ^ 63⟩) :=
  toString_faithful ⟨-5⟩ ⟨-2 ^ 63⟩ (by decide) (by decide)

end Dxian
