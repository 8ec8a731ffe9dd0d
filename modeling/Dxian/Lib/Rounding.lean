import Mathlib.Algebra.Order.Floor.Ring
import Mathlib.Data.Int.Log
import Mathlib.Tactic.Linarith

/-!
# Rounding to nearest, ties to even

To an integer, and to a number of significant bits.

## Main results

- `abs_halfEven_sub_le`, `halfEven_mono` — rounding to an integer
- `significant_mem_binade` — rounding does not leave the binade
- `significant_mono` — rounding to significant bits keeps the order
- `abs_significant_sub_le`, `significant_intCast` — the rounding error, and where there is none
-/

namespace Rounding

variable {K : Type*} [Field K] [LinearOrder K] [IsStrictOrderedRing K] [FloorRing K]

/-- The integer nearest to `q`; the even one, if there are two. -/
def halfEven (q : K) : ℤ :=
  if q - ⌊q⌋ < 1 / 2 then ⌊q⌋
  else if 1 / 2 < q - ⌊q⌋ then ⌊q⌋ + 1
  else ⌊q⌋ + ⌊q⌋ % 2

theorem halfEven_intCast (n : ℤ) : halfEven (n : K) = n := by
  rw [halfEven, Int.floor_intCast, sub_self, if_pos (by norm_num)]

/-- The rounding error. -/
theorem abs_halfEven_sub_le (q : K) : |(halfEven q : K) - q| ≤ 1 / 2 := by
  have hlow := Int.floor_le q
  have hhigh := Int.lt_floor_add_one q
  rw [halfEven, abs_le]
  split_ifs with hbelow habove
  · constructor <;> linarith
  · push_cast
    constructor <;> linarith
  · -- a tie: down from an even floor, up from an odd one
    obtain heven | hodd := Int.emod_two_eq_zero_or_one ⌊q⌋
    · rw [heven]
      push_cast
      constructor <;> linarith
    · rw [hodd]
      push_cast
      constructor <;> linarith

theorem halfEven_mono {x y : K} (h : x ≤ y) : halfEven x ≤ halfEven y := by
  by_contra hlt
  have hx := (abs_le.mp (abs_halfEven_sub_le x)).2
  have hy := (abs_le.mp (abs_halfEven_sub_le y)).1
  have hsucc : (halfEven y : K) + 1 ≤ halfEven x := by exact_mod_cast Int.not_le.mp hlt
  -- only a tie rounds by a half, and a tie rounds one way
  have heq : x = y := le_antisymm h (by linarith)
  rw [heq] at hlt
  exact hlt le_rfl

theorem halfEven_nonneg {q : K} (h : 0 ≤ q) : 0 ≤ halfEven q := by
  have hzero := halfEven_intCast (K := K) 0
  rw [Int.cast_zero] at hzero
  exact hzero ▸ halfEven_mono h

/-! ## Significant bits -/

/-- The unit in the last place of `q` at `p` significant bits. -/
def ulp (p : ℕ) (q : K) : K := 2 ^ (Int.log 2 |q| + 1 - p)

/-- `q` rounded to `p` significant bits. -/
def significant (p : ℕ) (q : K) : K := halfEven (q / ulp p q) * ulp p q

theorem ulp_pos (p : ℕ) (q : K) : 0 < ulp p q := zpow_pos two_pos _

theorem significant_nonneg {p : ℕ} {q : K} (h : 0 ≤ q) : 0 ≤ significant p q :=
  mul_nonneg (Int.cast_nonneg (halfEven_nonneg (div_nonneg h (ulp_pos p q).le))) (ulp_pos p q).le

/-- The powers of two at both ends of a binade are multiples of its last place. -/
theorem pow_mul_ulp {p k : ℕ} (q : K) :
    ((2 ^ k : ℤ) : K) * ulp p q = 2 ^ (Int.log 2 |q| + 1 - p + k) := by
  rw [ulp, zpow_add₀ (two_pos (α := K)).ne', zpow_natCast, mul_comm]
  push_cast
  rfl

/-- **Rounding stays in the binade**, the upper end included. -/
theorem significant_mem_binade {p : ℕ} (hp : 0 < p) {q : K} (hq : 0 < q) :
    2 ^ Int.log 2 q ≤ significant p q ∧ significant p q ≤ 2 ^ (Int.log 2 q + 1) := by
  have hpos := ulp_pos p q
  have hlog : Int.log 2 |q| = Int.log 2 q := by rw [abs_of_pos hq]
  constructor
  · have hend : ((2 ^ (p - 1) : ℤ) : K) * ulp p q = 2 ^ Int.log 2 q := by
      rw [pow_mul_ulp, hlog]
      congr 1
      omega
    rw [significant, ← hend]
    apply mul_le_mul_of_nonneg_right _ hpos.le
    rw [← halfEven_intCast (K := K) (2 ^ (p - 1))]
    apply Int.cast_le.mpr (halfEven_mono _)
    rw [le_div_iff₀ hpos, hend]
    exact Int.zpow_log_le_self (by norm_num) hq
  · have hend : ((2 ^ p : ℤ) : K) * ulp p q = 2 ^ (Int.log 2 q + 1) := by
      rw [pow_mul_ulp, hlog, sub_add_cancel]
    rw [significant, ← hend]
    apply mul_le_mul_of_nonneg_right _ hpos.le
    rw [← halfEven_intCast (K := K) (2 ^ p)]
    apply Int.cast_le.mpr (halfEven_mono _)
    rw [div_le_iff₀ hpos, hend]
    exact (Int.lt_zpow_succ_log_self (by norm_num) q).le

/-- **Rounding keeps the order.** -/
theorem significant_mono {p : ℕ} (hp : 0 < p) {x y : K} (hx : 0 ≤ x) (h : x ≤ y) :
    significant p x ≤ significant p y := by
  obtain hzero | hpos := hx.eq_or_lt
  · rw [← hzero] at h ⊢
    have hround : significant p (0 : K) = 0 := by
      rw [significant, zero_div, ← Int.cast_zero, halfEven_intCast, Int.cast_zero, zero_mul]
    rw [hround]
    exact significant_nonneg h
  · obtain hsame | hlt := (Int.log_mono_right (b := 2) hpos h).eq_or_lt
    · -- one binade, one last place
      have hulp : ulp p x = ulp p y := by
        rw [ulp, ulp, abs_of_pos hpos, abs_of_pos (hpos.trans_le h), hsame]
      rw [significant, significant, hulp]
      apply mul_le_mul_of_nonneg_right _ (ulp_pos p y).le
      exact Int.cast_le.mpr (halfEven_mono (div_le_div_of_nonneg_right h (ulp_pos p y).le))
    · calc significant p x
          ≤ 2 ^ (Int.log 2 x + 1) := (significant_mem_binade hp hpos).2
        _ ≤ 2 ^ Int.log 2 y := zpow_le_zpow_right₀ one_le_two hlt
        _ ≤ significant p y := (significant_mem_binade hp (hpos.trans_le h)).1

@[simp] theorem significant_zero (p : ℕ) : significant p (0 : K) = 0 := by
  rw [significant, zero_div, ← Int.cast_zero, halfEven_intCast, Int.cast_zero, zero_mul]

theorem log_lt {q : K} (hq : q ≠ 0) {e : ℤ} (h : |q| < 2 ^ e) : Int.log 2 |q| < e :=
  (Int.lt_zpow_iff_log_lt (by norm_num) (abs_pos.mpr hq)).mp (by exact_mod_cast h)

/-- **The rounding error** is at most half a unit in the last place. -/
theorem abs_significant_sub_le {p : ℕ} {e : ℤ} {q : K} (h : |q| < 2 ^ e) :
    |significant p q - q| ≤ 2 ^ (e - p) / 2 := by
  by_cases hq : q = 0
  · rw [hq, significant_zero, sub_zero, abs_zero]
    exact div_nonneg (zpow_pos two_pos _).le zero_le_two
  · have hpos := ulp_pos p q
    have hulp : ulp p q ≤ 2 ^ (e - p) :=
      zpow_le_zpow_right₀ one_le_two (by have := log_lt hq h; omega)
    have hsplit : significant p q - q = (halfEven (q / ulp p q) - q / ulp p q) * ulp p q := by
      rw [significant, sub_mul, div_mul_cancel₀ _ hpos.ne']
    calc |significant p q - q|
        = |(halfEven (q / ulp p q) : K) - q / ulp p q| * ulp p q := by
          rw [hsplit, abs_mul, abs_of_pos hpos]
      _ ≤ 1 / 2 * ulp p q := mul_le_mul_of_nonneg_right (abs_halfEven_sub_le _) hpos.le
      _ ≤ 2 ^ (e - p) / 2 := by linarith

/-- An integer of so many bits is not rounded. -/
theorem significant_intCast {p : ℕ} {n : ℤ} (h : |n| < 2 ^ p) : significant p (n : K) = n := by
  by_cases hn : n = 0
  · rw [hn, Int.cast_zero, significant_zero]
  · have hcast : |(n : K)| < 2 ^ (p : ℤ) := by exact_mod_cast h
    have hlog := log_lt (Int.cast_ne_zero.mpr hn) hcast
    obtain ⟨k, hk⟩ : ∃ k : ℕ, Int.log 2 |(n : K)| + 1 - p = -k :=
      ⟨(p - (Int.log 2 |(n : K)| + 1)).toNat, by omega⟩
    have hmultiple : (n : K) / ulp p (n : K) = ((n * 2 ^ k : ℤ) : K) := by
      rw [ulp, hk, zpow_neg, zpow_natCast, div_inv_eq_mul]
      push_cast
      rfl
    rw [significant, hmultiple, halfEven_intCast, ← hmultiple, div_mul_cancel₀ _ (ulp_pos p _).ne']

end Rounding
