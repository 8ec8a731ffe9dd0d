import Dxian.Base.Logging.Format
import Dxian.Base.Timestamp

/-!
# Differences of times as doubles

`timeDifference` answers in seconds, as a `double`; "52-bit precision, enough for one-microsecond
resolution for next 100 years". `addTime` takes a `double` of seconds and truncates what it makes
of it to microseconds.

## Main results

- `timeDifference_lt_iff` — the resolution
- `microsecond_resolution` — the way back with `addTime` may lose the last microsecond
-/

namespace Dxian

open Rounding Timestamp

/-- `static_cast<int64_t>`, toward zero. -/
def truncate (q : ℚ) : ℤ := if 0 ≤ q then ⌊q⌋ else ⌈q⌉

/-- `timeDifference`. -/
def timeDifference (high low : Timestamp) : ℚ :=
  let diff := high.microSecondsSinceEpoch - low.microSecondsSinceEpoch
  double (double diff / kMicroSecondsPerSecond)

/-- What `addTime` makes of a `double`. -/
def Seconds.ofDouble (seconds : ℚ) : Seconds where
  positive := 0 < seconds
  microSeconds := truncate (times seconds kMicroSecondsPerSecond)
  microSeconds_nonneg h := by
    have hnonneg : 0 ≤ times seconds kMicroSecondsPerSecond := by
      refine double_nonneg (mul_nonneg (of_decide_eq_true h).le ?_)
      norm_num [kMicroSecondsPerSecond]
    rw [truncate, if_pos hnonneg]
    exact Int.floor_nonneg.mpr hnonneg

/-! ## The error of a difference -/

/-- `2 ^ 33` seconds, about 272 years. -/
def kResolved : ℤ := 2 ^ 33 * kMicroSecondsPerSecond

variable {d : ℤ}

theorem abs_cast_lt (h : |d| < kResolved) : |(d : ℚ)| < 2 ^ 33 * 1000000 := by
  have hcast : ((|d| : ℤ) : ℚ) < (kResolved : ℤ) := by exact_mod_cast h
  rw [Int.cast_abs] at hcast
  refine hcast.trans_eq ?_
  norm_num [kResolved, kMicroSecondsPerSecond]

/-- The conversion of the difference is exact, and the quotient less than half a microsecond
off. -/
theorem abs_seconds_sub_le (h : |d| < kResolved) :
    |double (double d / kMicroSecondsPerSecond) - d / 1000000| ≤ 1 / 2 ^ 21 := by
  have hexact : double d = d := by
    refine significant_intCast (h.trans ?_)
    norm_num [kResolved, kMicroSecondsPerSecond]
  have hlt : |(d / 1000000 : ℚ)| < 2 ^ (33 : ℤ) := by
    rw [abs_div, abs_of_pos (show (0 : ℚ) < 1000000 by norm_num), div_lt_iff₀ (by norm_num)]
    exact_mod_cast abs_cast_lt h
  have herror := abs_significant_sub_le (p := 53) hlt
  have hscale : ((kMicroSecondsPerSecond : ℤ) : ℚ) = 1000000 := by
    norm_num [kMicroSecondsPerSecond]
  rw [hexact, hscale]
  refine herror.trans_eq ?_
  norm_num

/-- **Resolution**: different differences are different doubles, in the same order. -/
theorem timeDifference_lt_iff {high low high' low' : Timestamp}
    (h : |high.microSecondsSinceEpoch - low.microSecondsSinceEpoch| < kResolved)
    (h' : |high'.microSecondsSinceEpoch - low'.microSecondsSinceEpoch| < kResolved) :
    timeDifference high low < timeDifference high' low' ↔
      high.microSecondsSinceEpoch - low.microSecondsSinceEpoch <
        high'.microSecondsSinceEpoch - low'.microSecondsSinceEpoch := by
  have hstep : ∀ {d d' : ℤ}, |d| < kResolved → |d'| < kResolved → d < d' →
      double (double d / kMicroSecondsPerSecond) <
        double (double d' / kMicroSecondsPerSecond) := by
    intro d d' hd hd' hlt
    have herror := (abs_le.mp (abs_seconds_sub_le hd)).2
    have herror' := (abs_le.mp (abs_seconds_sub_le hd')).1
    have hsucc : (d : ℚ) + 1 ≤ d' := by exact_mod_cast hlt
    linarith
  constructor
  · intro hlt
    by_contra hle
    rcases (Int.not_lt.mp hle).lt_or_eq with hgt | heq
    · exact lt_asymm hlt (hstep h' h hgt)
    · rw [timeDifference, timeDifference, heq] at hlt
      exact lt_irrefl _ hlt
  · exact hstep h h'

/-! ## The way back -/

/-- The product is less than a microsecond off. -/
theorem abs_times_sub_lt (h : |d| < kResolved) :
    |times (double (double d / kMicroSecondsPerSecond)) kMicroSecondsPerSecond - d| < 1 := by
  have hscale : ((kMicroSecondsPerSecond : ℤ) : ℚ) = 1000000 := by
    norm_num [kMicroSecondsPerSecond]
  have herror := abs_le.mp (abs_seconds_sub_le h)
  generalize double (double d / kMicroSecondsPerSecond) = t at herror
  have hd := abs_lt.mp (abs_cast_lt h)
  have hlt : |t * 1000000| < 2 ^ (53 : ℤ) := by
    rw [abs_lt]
    constructor <;> norm_num <;> linarith
  have hround := abs_le.mp (abs_significant_sub_le (p := 53) hlt)
  rw [hscale, times, double, abs_lt]
  norm_num at hround
  constructor <;> linarith

/-- A number less than one away from an integer is truncated to it or to the next one nearer
to zero. -/
theorem truncate_near {q : ℚ} (h : |q - d| < 1) (hzero : d = 0 → q = 0) :
    (0 ≤ d → d - 1 ≤ truncate q ∧ truncate q ≤ d) ∧
      (d ≤ 0 → d ≤ truncate q ∧ truncate q ≤ d + 1) := by
  obtain ⟨hlow, hhigh⟩ := abs_lt.mp h
  rcases lt_trichotomy d 0 with hd | rfl | hd
  · have hsucc : (d : ℚ) + 1 ≤ 0 := by exact_mod_cast hd
    have hneg : ¬ 0 ≤ q := by
      intro hq
      linarith
    rw [truncate, if_neg hneg]
    refine ⟨fun hle => absurd hle (by omega), fun _ => ⟨?_, ?_⟩⟩
    · have hlt : (d - 1 : ℤ) < ⌈q⌉ := Int.lt_ceil.mpr (by push_cast; linarith)
      omega
    · exact Int.ceil_le.mpr (by push_cast; linarith)
  · rw [hzero rfl]
    decide
  · have hpred : (1 : ℚ) ≤ d := by exact_mod_cast hd
    have hpos : 0 ≤ q := by linarith
    rw [truncate, if_pos hpos]
    refine ⟨fun _ => ⟨?_, ?_⟩, fun hle => absurd hle (by omega)⟩
    · exact Int.le_floor.mpr (by push_cast; linarith)
    · have hlt : ⌊q⌋ < d + 1 := Int.floor_lt.mpr (by push_cast; linarith)
      omega

/-- **One-microsecond resolution.** For times that are less than `2 ^ 33` seconds, about 272
years, apart: `timeDifference` keeps the order of the differences, so that different ones give
different doubles. `addTime` to the earlier or the later of two times, with their difference,
gives the other one, or is one microsecond short of it. -/
theorem microsecond_resolution {high low high' low' : Timestamp}
    (h : |high.microSecondsSinceEpoch - low.microSecondsSinceEpoch| < kResolved)
    (h' : |high'.microSecondsSinceEpoch - low'.microSecondsSinceEpoch| < kResolved) :
    (timeDifference high low < timeDifference high' low' ↔
      high.microSecondsSinceEpoch - low.microSecondsSinceEpoch <
        high'.microSecondsSinceEpoch - low'.microSecondsSinceEpoch) ∧
    (low ≤ high → high.microSecondsSinceEpoch - 1 ≤
        (addTime low (.ofDouble (timeDifference high low))).microSecondsSinceEpoch ∧
      addTime low (.ofDouble (timeDifference high low)) ≤ high) ∧
    (high ≤ low → high ≤ addTime low (.ofDouble (timeDifference high low)) ∧
      (addTime low (.ofDouble (timeDifference high low))).microSecondsSinceEpoch ≤
        high.microSecondsSinceEpoch + 1) := by
  refine ⟨timeDifference_lt_iff h h', ?_⟩
  have hnear := truncate_near (abs_times_sub_lt h) fun hzero => by
    rw [hzero]
    decide +kernel
  simp only [Timestamp.le_iff, addTime, Seconds.ofDouble, timeDifference]
  constructor
  · intro hle
    have := hnear.1 (by omega)
    omega
  · intro hle
    have := hnear.2 (by omega)
    omega

/-- A difference of 249 microseconds comes back as 248. -/
theorem microsecond_resolution_249 :
    (timeDifference ⟨249⟩ ⟨0⟩ < timeDifference ⟨500⟩ ⟨250⟩) ∧
    addTime ⟨0⟩ (.ofDouble (timeDifference ⟨249⟩ ⟨0⟩)) = ⟨248⟩ :=
  ⟨(microsecond_resolution (by decide) (by decide)).1.mpr (by decide), by decide +kernel⟩

/-- Beyond `2 ^ 33` seconds the resolution ends. -/
example : timeDifference ⟨kResolved + 1⟩ ⟨0⟩ = timeDifference ⟨kResolved + 2⟩ ⟨0⟩ := by
  decide +kernel

end Dxian
