import Mathlib.Data.Nat.Count
import Mathlib.Order.MinMax
import Mathlib.Algebra.Order.Group.Int

/-!
# Clocks that are set forward and back

A `LocalClock` shows a second plus an offset, and the offset changes at finitely many
instants. Between two changes the clock runs on; `separated` says that the times around
one change are over before those around the next one.

## Main results

- `lt_period_iff`, `period_eq` — the period that an instant belongs to
- `shows_period`, `Shows.shown` — the times of a period are those that it shows
-/

/-- `offset 0` applies before the first change, `offset (i + 1)` from `instant i` on. -/
structure LocalClock where
  size : ℕ
  instant : ℕ → ℤ
  offset : ℕ → ℤ
  increasing : ∀ i, i + 1 < size → instant i < instant (i + 1)
  separated : ∀ i, i + 1 < size →
    max (instant i + offset i) (instant i + offset (i + 1)) <
      min (instant (i + 1) + offset (i + 1)) (instant (i + 1) + offset (i + 1 + 1))

namespace LocalClock

variable (c : LocalClock)

/-- The time that the clock would show at a change without it. -/
def before (i : ℕ) : ℤ := c.instant i + c.offset i

/-- The time that the clock shows at a change. -/
def after (i : ℕ) : ℤ := c.instant i + c.offset (i + 1)

/-- How many changes there are up to an instant. -/
def period (t : ℤ) : ℕ := Nat.count (fun i => c.instant i ≤ t) c.size

/-- How many changes lead to a time that is not later than `L`. -/
def passed (L : ℤ) : ℕ := Nat.count (fun i => c.after i ≤ L) c.size

/-- The time that the clock shows. -/
def shown (t : ℤ) : ℤ := t + c.offset (c.period t)

variable {c} {i j k : ℕ} {t L : ℤ}

theorem instant_lt (hij : i < j) (hj : j < c.size) : c.instant i < c.instant j := by
  induction j with
  | zero => cases hij
  | succ j ih =>
    have hstep := c.increasing j hj
    by_cases heq : i = j
    · rw [heq]
      exact hstep
    · have hprev := ih (by omega) (by omega)
      omega

/-- The times around a change are over before those around a later one. -/
theorem around_lt (hij : i < j) (hj : j < c.size) : c.before i < c.before j ∧
    c.before i < c.after j ∧ c.after i < c.before j ∧ c.after i < c.after j := by
  induction j with
  | zero => cases hij
  | succ j ih =>
    have hstep := c.separated j hj
    unfold before after at *
    by_cases heq : i = j
    · rw [heq]
      omega
    · have hprev := ih (by omega) (by omega)
      omega

theorem instant_le (hij : i ≤ j) (hj : j < c.size) : c.instant i ≤ c.instant j := by
  by_cases heq : i = j
  · rw [heq]
  · exact Int.le_of_lt (instant_lt (by omega) hj)

/-! ## Periods -/

theorem eq_of_lt_iff {m n r : ℕ} (hm : m ≤ n) (hr : r ≤ n) (h : ∀ i < n, i < m ↔ i < r) :
    m = r := by
  by_contra hne
  by_cases hlt : m < r
  · have := (h m (by omega)).mpr hlt
    omega
  · have := (h r (by omega)).mp (by omega)
    omega

/-- Counting the initial segment where a property holds. -/
theorem lt_count_iff {p : ℕ → Prop} [DecidablePred p] {n : ℕ}
    (hp : ∀ i j, i ≤ j → j < n → p j → p i) : ∀ i < n, i < Nat.count p n ↔ p i := by
  induction n with
  | zero => nofun
  | succ n ih =>
    intro i hi
    have hprev := ih fun i j hij hj => hp i j hij (by omega)
    rw [Nat.count_succ]
    by_cases hn : p n
    · have hall : Nat.count p n = n := Nat.count_iff_forall.mpr fun j hj =>
        hp j n (by omega) (by omega) hn
      rw [if_pos hn, hall]
      exact ⟨fun _ => hp i n (by omega) (by omega) hn, fun _ => hi⟩
    · rw [if_neg hn]
      by_cases heq : i = n
      · have hle := Nat.count_le (p := p) (n := n)
        rw [heq]
        exact ⟨fun hlt => by omega, fun h => absurd h hn⟩
      · exact hprev i (by omega)

theorem period_le (c : LocalClock) (t : ℤ) : c.period t ≤ c.size := Nat.count_le _

theorem lt_period_iff (hi : i < c.size) : i < c.period t ↔ c.instant i ≤ t :=
  lt_count_iff (fun _ _ hij hj hle => Int.le_trans (instant_le hij hj) hle) i hi

theorem passed_le (c : LocalClock) (L : ℤ) : c.passed L ≤ c.size := Nat.count_le _

theorem lt_passed_iff (hi : i < c.size) : i < c.passed L ↔ c.after i ≤ L := by
  refine lt_count_iff (fun i j hij hj hle => ?_) i hi
  by_cases heq : i = j
  · rw [heq]
    exact hle
  · have hlt := (around_lt (c := c) (show i < j by omega) hj).2.2.2
    omega

/-- An instant belongs to the period between its two neighbours. -/
theorem period_eq (hk : k ≤ c.size) (hleft : 0 < k → c.instant (k - 1) ≤ t)
    (hright : k < c.size → t < c.instant k) : c.period t = k := by
  have hle := c.period_le t
  by_contra hne
  by_cases hlt : c.period t < k
  · have hmem := (lt_period_iff (c := c) (t := t) (i := k - 1) (by omega)).mpr (hleft (by omega))
    omega
  · have hmem := (lt_period_iff (c := c) (t := t) (i := k) (by omega)).mp (by omega)
    have hno := hright (by omega)
    omega

/-! ## Times -/

/-- The times shown in the period `k`. -/
structure Shows (c : LocalClock) (k : ℕ) (L : ℤ) : Prop where
  le : k ≤ c.size
  left : 0 < k → c.after (k - 1) ≤ L
  right : k < c.size → L < c.before k

theorem shows_period (c : LocalClock) (t : ℤ) : c.Shows (c.period t) (c.shown t) where
  le := c.period_le t
  left hpos := by
    have hle := c.period_le t
    have hmem := (lt_period_iff (c := c) (t := t) (i := c.period t - 1) (by omega)).mp (by omega)
    rw [after, shown, show c.period t - 1 + 1 = c.period t by omega]
    omega
  right hlt := by
    have hno := mt (lt_period_iff (c := c) (t := t) (i := c.period t) hlt).mpr (by omega)
    unfold before shown
    omega

/-- A time of a period is shown in it. -/
theorem Shows.shown (h : c.Shows k L) : c.period (L - c.offset k) = k ∧
    c.shown (L - c.offset k) = L := by
  have hperiod : c.period (L - c.offset k) = k := by
    refine period_eq h.le (fun hpos => ?_) fun hlt => ?_
    · have hleft := h.left hpos
      rw [after, show k - 1 + 1 = k by omega] at hleft
      omega
    · have hright := h.right hlt
      unfold before at hright
      omega
  refine ⟨hperiod, ?_⟩
  rw [LocalClock.shown, hperiod]
  omega

/-- If only one instant shows a time, it is shown in one period. -/
theorem Shows.eq_period (h : c.Shows k (c.shown t)) (hunique : ∀ u, c.shown u = c.shown t → u = t) :
    k = c.period t := by
  obtain ⟨hperiod, hshown⟩ := h.shown
  rw [hunique _ hshown] at hperiod
  exact hperiod.symm

end LocalClock
