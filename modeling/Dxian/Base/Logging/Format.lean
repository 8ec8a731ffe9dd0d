import Dxian.Base.Logging.Convert
import Dxian.Lib.Rounding
import Mathlib.Data.Rat.Floor

/-!
# Quantities with units

`formatSI` and `formatIEC` promise at most five and six characters. The branch of `formatSI`
is chosen by the integer and the digits come from a `double`, so that the two can disagree:
above `2 ^ 53` an integer just below a limit is rounded up to the limit.

## Main results

- `length_formatIEC_le` — `formatIEC` keeps its promise
- `format_fits_iff` — `formatSI` breaks its promise for eight numbers
-/

namespace Dxian

open Rounding

/-- The `double` nearest to a number. -/
def double (q : ℚ) : ℚ := significant 53 q

/-- `%.kf`: the nearest decimal with `k` digits after the point. -/
def fixed (k : ℕ) (q : ℚ) : List UInt8 :=
  let m := (halfEven (q * 10 ^ k)).natAbs
  (if q < 0 then [0x2d] else []) ++ decimal (m / 10 ^ k : ℕ) ++
    if k = 0 then []
    else 0x2e :: (List.range k).reverse.map fun i => decimalChar (m / 10 ^ i % 10)

/-- `snprintf` into a buffer of `size` bytes: what is in front of the NUL. -/
def snprintf (size : ℕ) (text : List UInt8) : List UInt8 := text.take (size - 1)

/-- `snprintf(buf, sizeof(buf), "%.kf..", n/unit)`, where `..` is the suffix. -/
def printScaled (k : ℕ) (n unit : ℚ) (suffix : String) : List UInt8 :=
  snprintf 64 (fixed k (double (n / unit)) ++ bytes suffix)

def formatSI (s : ℤ) : List UInt8 :=
  let n := double s
  if s < 1000 then snprintf 64 (decimal s)
  else if s < 9995 then printScaled 2 n 1e3 "k"
  else if s < 99950 then printScaled 1 n 1e3 "k"
  else if s < 999500 then printScaled 0 n 1e3 "k"
  else if s < 9995000 then printScaled 2 n 1e6 "M"
  else if s < 99950000 then printScaled 1 n 1e6 "M"
  else if s < 999500000 then printScaled 0 n 1e6 "M"
  else if s < 9995000000 then printScaled 2 n 1e9 "G"
  else if s < 99950000000 then printScaled 1 n 1e9 "G"
  else if s < 999500000000 then printScaled 0 n 1e9 "G"
  else if s < 9995000000000 then printScaled 2 n 1e12 "T"
  else if s < 99950000000000 then printScaled 1 n 1e12 "T"
  else if s < 999500000000000 then printScaled 0 n 1e12 "T"
  else if s < 9995000000000000 then printScaled 2 n 1e15 "P"
  else if s < 99950000000000000 then printScaled 1 n 1e15 "P"
  else if s < 999500000000000000 then printScaled 0 n 1e15 "P"
  else printScaled 2 n 1e18 "E"

/-- The product of two `double`s. -/
def times (x y : ℚ) : ℚ := double (x * y)

def Ki : ℚ := 1024.0
def Mi : ℚ := times Ki 1024.0
def Gi : ℚ := times Mi 1024.0
def Ti : ℚ := times Gi 1024.0
def Pi : ℚ := times Ti 1024.0
def Ei : ℚ := times Pi 1024.0

/-- `formatIEC`; the literals `9.995` and `99.95` are not exact. -/
def formatIEC (s : ℤ) : List UInt8 :=
  let n := double s
  if n < Ki then snprintf 64 (decimal s)
  else if n < times Ki (double 9.995) then printScaled 2 n Ki "Ki"
  else if n < times Ki (double 99.95) then printScaled 1 n Ki "Ki"
  else if n < times Ki (double 1023.5) then printScaled 0 n Ki "Ki"
  else if n < times Mi (double 9.995) then printScaled 2 n Mi "Mi"
  else if n < times Mi (double 99.95) then printScaled 1 n Mi "Mi"
  else if n < times Mi (double 1023.5) then printScaled 0 n Mi "Mi"
  else if n < times Gi (double 9.995) then printScaled 2 n Gi "Gi"
  else if n < times Gi (double 99.95) then printScaled 1 n Gi "Gi"
  else if n < times Gi (double 1023.5) then printScaled 0 n Gi "Gi"
  else if n < times Ti (double 9.995) then printScaled 2 n Ti "Ti"
  else if n < times Ti (double 99.95) then printScaled 1 n Ti "Ti"
  else if n < times Ti (double 1023.5) then printScaled 0 n Ti "Ti"
  else if n < times Pi (double 9.995) then printScaled 2 n Pi "Pi"
  else if n < times Pi (double 99.95) then printScaled 1 n Pi "Pi"
  else if n < times Pi (double 1023.5) then printScaled 0 n Pi "Pi"
  else if n < times Ei (double 9.995) then printScaled 2 n Ei "Ei"
  else printScaled 1 n Ei "Ei"

/-! ## Longer texts for larger numbers -/

theorem double_mono {x y : ℚ} (hx : 0 ≤ x) (h : x ≤ y) : double x ≤ double y :=
  significant_mono (by decide) hx h

theorem double_intCast_mono {s t : ℤ} (hs : 0 ≤ s) (h : s ≤ t) : double s ≤ double t :=
  double_mono (Int.cast_nonneg hs) (Int.cast_le.mpr h)

theorem double_nonneg {q : ℚ} (h : 0 ≤ q) : 0 ≤ double q := significant_nonneg h

theorem length_decimal_mono {m n : ℤ} (hm : 0 ≤ m) (h : m ≤ n) :
    (decimal m).length ≤ (decimal n).length := by
  rw [decimal, decimal, if_neg (Int.not_lt.mpr hm), if_neg (Int.not_lt.mpr (hm.trans h))]
  rw [List.nil_append, List.nil_append, List.length_reverse, List.length_reverse, List.length_map,
    List.length_map]
  exact Numeral.length_digits_mono (by decide) (by omega)

theorem length_snprintf_mono {size : ℕ} {text text' : List UInt8}
    (h : text.length ≤ text'.length) :
    (snprintf size text).length ≤ (snprintf size text').length := by
  rw [snprintf, snprintf, List.length_take, List.length_take]
  omega

theorem length_fixed_mono {k : ℕ} {x y : ℚ} (hx : 0 ≤ x) (h : x ≤ y) :
    (fixed k x).length ≤ (fixed k y).length := by
  have hpow : (0 : ℚ) ≤ 10 ^ k := pow_nonneg (by norm_num) k
  have hm := halfEven_nonneg (mul_nonneg hx hpow)
  have hmono := halfEven_mono (mul_le_mul_of_nonneg_right h hpow)
  have hint : (decimal ((halfEven (x * 10 ^ k)).natAbs / 10 ^ k : ℕ)).length ≤
      (decimal ((halfEven (y * 10 ^ k)).natAbs / 10 ^ k : ℕ)).length := by
    apply length_decimal_mono (Int.natCast_nonneg _)
    exact Int.ofNat_le.mpr (Nat.div_le_div_right (by omega))
  rw [fixed, fixed, if_neg (not_lt.mpr hx), if_neg (not_lt.mpr (hx.trans h)), List.nil_append,
    List.nil_append, List.length_append, List.length_append]
  -- the fraction has `k` digits in both
  by_cases hk : k = 0
  · rw [if_pos hk, if_pos hk]
    exact Nat.add_le_add_right hint _
  · simpa [if_neg hk] using hint

theorem length_printScaled_mono {k : ℕ} {unit : ℚ} {suffix : String} (hunit : 0 ≤ unit) {s t : ℤ}
    (hs : 0 ≤ s) (h : s ≤ t) :
    (printScaled k (double s) unit suffix).length ≤
      (printScaled k (double t) unit suffix).length := by
  have hn := double_nonneg (Int.cast_nonneg (R := ℚ) hs)
  have hle := div_le_div_of_nonneg_right (double_intCast_mono hs h) hunit
  have hquotient := double_mono (div_nonneg hn hunit) hle
  have hfixed := length_fixed_mono (k := k) (double_nonneg (div_nonneg hn hunit)) hquotient
  apply length_snprintf_mono
  rw [List.length_append, List.length_append]
  exact Nat.add_le_add_right hfixed _

theorem length_plain_mono {s t : ℤ} (hs : 0 ≤ s) (h : s ≤ t) :
    (snprintf 64 (decimal s)).length ≤ (snprintf 64 (decimal t)).length :=
  length_snprintf_mono (length_decimal_mono hs h)

/-- A limit on the `double` as a limit on the integer. -/
theorem lt_of_double_lt {s t : ℤ} {limit : ℚ} (ht : 0 ≤ t) (hlimit : limit ≤ double t)
    (h : double s < limit) : s < t := by
  by_contra hle
  have hmono := double_intCast_mono ht (Int.not_lt.mp hle)
  exact absurd (hlimit.trans hmono) (not_le.mpr h)

/-! ## The chains of limits -/

/-- One `else if` of a chain: the limit it compares with, and what it prints. -/
structure Rung (α : Type*) where
  limit : α
  digits : ℕ
  unit : ℚ
  suffix : String

namespace Rung

variable {α : Type*}

def text (r : Rung α) (s : ℤ) : List UInt8 := printScaled r.digits (double s) r.unit r.suffix

theorem length_text_mono {r : Rung α} (hunit : 0 ≤ r.unit) {s t : ℤ} (hs : 0 ≤ s) (h : s ≤ t) :
    (r.text s).length ≤ (r.text t).length :=
  length_printScaled_mono hunit hs h

variable [LT α] [DecidableLT α]

/-- The text of the first rung above `x`, `last` if there is none. -/
def climb (x : α) (s : ℤ) (last : List UInt8) : List (Rung α) → List UInt8
  | [] => last
  | r :: rungs => if x < r.limit then r.text s else climb x s last rungs

/-- A chain keeps a bound that each rung keeps where it is reached. -/
theorem length_climb_le {width : ℕ} {x : α} {s : ℤ} {last : List UInt8} {rungs : List (Rung α)}
    (hrungs : ∀ r ∈ rungs, x < r.limit → (r.text s).length ≤ width)
    (hlast : last.length ≤ width) : (climb x s last rungs).length ≤ width := by
  induction rungs with
  | nil => exact hlast
  | cons r rungs ih =>
    rw [climb]
    by_cases hlt : x < r.limit
    · rw [if_pos hlt]
      exact hrungs r List.mem_cons_self hlt
    · rw [if_neg hlt]
      exact ih fun r' hr' => hrungs r' (List.mem_cons_of_mem r hr')

/-- The rung at which a chain stops. -/
theorem climb_eq {x : α} {s : ℤ} {last : List UInt8} {below above : List (Rung α)} {r : Rung α}
    (hbelow : ∀ r' ∈ below, ¬ x < r'.limit) (hr : x < r.limit) :
    climb x s last (below ++ r :: above) = r.text s := by
  induction below with
  | nil => rw [List.nil_append, climb, if_pos hr]
  | cons r' below ih =>
    rw [List.cons_append, climb, if_neg (hbelow r' List.mem_cons_self)]
    exact ih fun r'' hr'' => hbelow r'' (List.mem_cons_of_mem r' hr'')

end Rung

/-- The chain of `formatSI` up to the limit that eight integers miss. -/
def siBelow : List (Rung ℤ) :=
  [⟨9995, 2, 1e3, "k"⟩, ⟨99950, 1, 1e3, "k"⟩, ⟨999500, 0, 1e3, "k"⟩,
    ⟨9995000, 2, 1e6, "M"⟩, ⟨99950000, 1, 1e6, "M"⟩, ⟨999500000, 0, 1e6, "M"⟩,
    ⟨9995000000, 2, 1e9, "G"⟩, ⟨99950000000, 1, 1e9, "G"⟩, ⟨999500000000, 0, 1e9, "G"⟩,
    ⟨9995000000000, 2, 1e12, "T"⟩, ⟨99950000000000, 1, 1e12, "T"⟩,
    ⟨999500000000000, 0, 1e12, "T"⟩, ⟨9995000000000000, 2, 1e15, "P"⟩]

def siHundred : Rung ℤ := ⟨99950000000000000, 1, 1e15, "P"⟩

def siAbove : List (Rung ℤ) := [⟨999500000000000000, 0, 1e15, "P"⟩]

def iecRungs : List (Rung ℚ) :=
  [(Ki, "Ki"), (Mi, "Mi"), (Gi, "Gi"), (Ti, "Ti"), (Pi, "Pi")].flatMap (fun (unit, suffix) =>
    [⟨times unit (double 9.995), 2, unit, suffix⟩, ⟨times unit (double 99.95), 1, unit, suffix⟩,
      ⟨times unit (double 1023.5), 0, unit, suffix⟩]) ++
    [⟨times Ei (double 9.995), 2, Ei, "Ei"⟩]

theorem formatSI_eq (s : ℤ) : formatSI s =
    if s < 1000 then snprintf 64 (decimal s)
    else Rung.climb s s (printScaled 2 (double s) 1e18 "E") (siBelow ++ siHundred :: siAbove) :=
  rfl

theorem formatIEC_eq (s : ℤ) : formatIEC s =
    if double s < Ki then snprintf 64 (decimal s)
    else Rung.climb (double s) s (printScaled 1 (double s) Ei "Ei") iecRungs :=
  rfl

/-! ## The widths -/

/-- The first integer that is nearer to `limit` than to the `double` below it. -/
def reach (limit : ℚ) : ℤ := ⌊limit - ulp 53 limit / 2⌋ + 1

/-- What a rung prints of the integer before its reach has six characters at most. -/
theorem iecRungs_fit : ∀ r ∈ iecRungs, 0 ≤ r.unit ∧ 0 ≤ reach r.limit ∧
    r.limit ≤ double (reach r.limit) ∧ (r.text (reach r.limit - 1)).length ≤ 6 := by
  decide +kernel

theorem length_formatIEC_le {s : ℤ} (hs : 0 ≤ s) (hmax : s < 2 ^ 63) :
    (formatIEC s).length ≤ 6 := by
  rw [formatIEC_eq]
  by_cases hsmall : double s < Ki
  · have hlt : s < 1024 := lt_of_double_lt (by decide) (by decide +kernel) hsmall
    rw [if_pos hsmall]
    exact (length_plain_mono hs (Int.le_sub_one_of_lt hlt)).trans (by decide +kernel)
  · rw [if_neg hsmall]
    apply Rung.length_climb_le
    · intro r hr hlt
      obtain ⟨hunit, hpos, hlimit, htext⟩ := iecRungs_fit r hr
      have hreach : s < reach r.limit := lt_of_double_lt hpos hlimit hlt
      exact (Rung.length_text_mono hunit hs (Int.le_sub_one_of_lt hreach)).trans htext
    · have hlast : s ≤ 2 ^ 63 - 1 := Int.le_sub_one_of_lt hmax
      exact (length_printScaled_mono (by decide +kernel) hs hlast).trans (by decide +kernel)

theorem siRungs_fit : ∀ r ∈ siBelow ++ siAbove,
    0 ≤ r.unit ∧ (r.text (r.limit - 1)).length ≤ 5 := by
  decide +kernel

/-- Below 99949999999999992 the quotient is less than 99.95. -/
theorem siHundred_fit : (siHundred.text 99949999999999991).length = 5 ∧
    (siHundred.text 99949999999999992).length = 6 := by
  decide +kernel

theorem length_formatSI_le {s : ℤ} (hs : 0 ≤ s) (hmax : s < 2 ^ 63)
    (hgap : ¬ (99949999999999992 ≤ s ∧ s < 99950000000000000)) : (formatSI s).length ≤ 5 := by
  rw [formatSI_eq]
  by_cases hsmall : s < 1000
  · rw [if_pos hsmall]
    exact (length_plain_mono hs (Int.le_sub_one_of_lt hsmall)).trans (by decide +kernel)
  · rw [if_neg hsmall]
    apply Rung.length_climb_le
    · intro r hr hlt
      by_cases hhundred : r = siHundred
      · rw [hhundred] at hlt ⊢
        have hbelow : s ≤ 99949999999999991 := by
          have hlimit : s < 99950000000000000 := hlt
          omega
        exact (Rung.length_text_mono (by decide +kernel) hs hbelow).trans siHundred_fit.1.le
      · have hmem : r ∈ siBelow ++ siAbove := by
          rw [List.mem_append, List.mem_cons] at hr
          exact List.mem_append.mpr (hr.imp_right fun h => h.resolve_left hhundred)
        obtain ⟨hunit, htext⟩ := siRungs_fit r hmem
        exact (Rung.length_text_mono hunit hs (Int.le_sub_one_of_lt hlt)).trans htext
    · have hlast : s ≤ 2 ^ 63 - 1 := Int.le_sub_one_of_lt hmax
      exact (length_printScaled_mono (by decide +kernel) hs hlast).trans (by decide +kernel)

/-- In the gap the `double` is the limit itself, whose quotient has three digits. -/
theorem lt_length_formatSI {s : ℤ} (hlow : 99949999999999992 ≤ s)
    (hhigh : s < 99950000000000000) : 5 < (formatSI s).length := by
  have hbelow : ∀ r ∈ siBelow, r.limit ≤ 9995000000000000 := by decide +kernel
  have hclimb : Rung.climb s s (printScaled 2 (double s) 1e18 "E")
      (siBelow ++ siHundred :: siAbove) = siHundred.text s :=
    Rung.climb_eq (fun r hr => Int.not_lt.mpr ((hbelow r hr).trans (by omega))) hhigh
  rw [formatSI_eq, if_neg (by omega), hclimb]
  have hmono := Rung.length_text_mono (r := siHundred) (by decide +kernel) (by decide) hlow
  rw [siHundred_fit.2] at hmono
  exact hmono

/-- **The width of a quantity.** Both promises are kept except for the eight integers that
are less than 99950000000000000 and have this number as their `double`: `formatSI` then
prints `100.0P`. -/
theorem format_fits_iff (s : ℤ) (hs : 0 ≤ s) (hmax : s < 2 ^ 63) :
    ((formatSI s).length ≤ 5 ∧ (formatIEC s).length ≤ 6) ↔
      ¬ (99949999999999992 ≤ s ∧ s < 99950000000000000) := by
  constructor
  · intro ⟨hfits, _⟩ ⟨hlow, hhigh⟩
    exact absurd hfits (Nat.not_le.mpr (lt_length_formatSI hlow hhigh))
  · intro hgap
    exact ⟨length_formatSI_le hs hmax hgap, length_formatIEC_le hs hmax⟩

/-- The largest `int64_t`. -/
theorem format_fits_max : ((formatSI (2 ^ 63 - 1)).length ≤ 5 ∧
    (formatIEC (2 ^ 63 - 1)).length ≤ 6) ↔
      ¬ ((99949999999999992 : ℤ) ≤ 2 ^ 63 - 1 ∧ (2 ^ 63 - 1 : ℤ) < 99950000000000000) :=
  format_fits_iff (2 ^ 63 - 1) (by decide) (by decide)

/-- The promise is broken. -/
theorem hundred_petas_too_wide : ¬ ∀ s : ℤ, 0 ≤ s → s < 2 ^ 63 →
    (formatSI s).length ≤ 5 ∧ (formatIEC s).length ≤ 6 := by
  intro h
  have hfits := (h 99949999999999999 (by decide) (by decide)).1
  exact absurd hfits (by decide +kernel)

end Dxian
