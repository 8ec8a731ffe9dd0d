import Mathlib.Data.Nat.Digits.Lemmas

/-!
# Numerals

The digits that a loop of divisions gives, which runs once for zero.

## Main results

- `digits_of_lt`, `digits_of_le` — the last round of the loop and the others
- `length_digits_le_iff` — the number of digits
- `canonical_iff` — the digits are the only numeral without a leading zero
-/

namespace Numeral

/-- The digits of a numeral, the last one first. -/
def digits (b n : ℕ) : List ℕ := if n = 0 then [0] else Nat.digits b n

variable {b n : ℕ}

theorem digits_of_lt (h : n < b) : digits b n = [n] := by
  rw [digits]
  by_cases hzero : n = 0
  · rw [if_pos hzero, hzero]
  · rw [if_neg hzero, Nat.digits_of_lt b n hzero h]

theorem digits_of_le (hb : 1 < b) (h : b ≤ n) : digits b n = n % b :: digits b (n / b) := by
  have hquotient : 0 < n / b := Nat.div_pos h (by omega)
  rw [digits, digits, if_neg (by omega), if_neg (by omega), Nat.digits_def' hb (by omega)]

theorem length_digits_le_iff {k : ℕ} (hb : 1 < b) (hk : 0 < k) :
    (digits b n).length ≤ k ↔ n < b ^ k := by
  rw [digits]
  by_cases hzero : n = 0
  · rw [if_pos hzero, hzero]
    exact iff_of_true hk (Nat.pow_pos (by omega))
  · rw [if_neg hzero]
    exact Nat.digits_length_le_iff hb n

theorem length_digits_le {k : ℕ} (hb : 1 < b) (hk : 0 < k) (h : n < b ^ k) :
    (digits b n).length ≤ k :=
  (length_digits_le_iff hb hk).mpr h

theorem length_digits_pos (b n : ℕ) : 0 < (digits b n).length := by
  rw [digits]
  split
  · exact Nat.one_pos
  · next hzero => exact List.length_pos_iff.mpr (Nat.digits_ne_nil_iff_ne_zero.mpr hzero)

theorem length_digits_mono {m : ℕ} (hb : 1 < b) (h : m ≤ n) :
    (digits b m).length ≤ (digits b n).length := by
  have hpos := length_digits_pos b n
  apply length_digits_le hb hpos
  exact h.trans_lt ((length_digits_le_iff hb hpos).mp le_rfl)

theorem length_digits_le_succ (hb : 1 < b) (n : ℕ) : (digits b n).length ≤ n + 1 := by
  apply length_digits_le hb (Nat.succ_pos n)
  exact (Nat.lt_pow_self hb).trans (Nat.pow_lt_pow_right hb n.lt_succ_self)

/-! ## Canonical numerals -/

/-- The number that a numeral denotes, its first digit first. -/
def value (b : ℕ) (ds : List ℕ) : ℕ := ds.foldl (fun n d => b * n + d) 0

/-- A numeral of `n`, its first digit first, without a leading zero. -/
structure Canonical (b : ℕ) (ds : List ℕ) (n : ℕ) : Prop where
  nonempty : ds ≠ []
  digit : ∀ d ∈ ds, d < b
  leading : ds.head? = some 0 → ds = [0]
  value : value b ds = n

theorem value_eq_ofDigits (b : ℕ) (ds : List ℕ) : value b ds = Nat.ofDigits b ds.reverse := by
  rw [value, Nat.ofDigits_eq_foldr, List.foldr_reverse]
  congr 1
  funext n d
  exact Nat.add_comm ..

theorem canonical_digits (hb : 1 < b) (n : ℕ) : Canonical b (digits b n).reverse n := by
  rw [digits]
  by_cases hzero : n = 0
  · rw [if_pos hzero, hzero]
    exact ⟨by simp, by simp; omega, by simp, by simp [Numeral.value]⟩
  · rw [if_neg hzero]
    have hne : Nat.digits b n ≠ [] := Nat.digits_ne_nil_iff_ne_zero.mpr hzero
    refine ⟨by simpa using hne, fun d hd => ?_, fun hhead => ?_, ?_⟩
    · exact Nat.digits_lt_base hb (List.mem_reverse.mp hd)
    · rw [List.head?_reverse, List.getLast?_eq_getLast_of_ne_nil hne] at hhead
      exact absurd (Option.some.inj hhead) (Nat.getLast_digit_ne_zero b hzero)
    · rw [value_eq_ofDigits, List.reverse_reverse, Nat.ofDigits_digits]

/-- **There is one canonical numeral.** -/
theorem canonical_iff (hb : 1 < b) {ds : List ℕ} {n : ℕ} :
    Canonical b ds n ↔ ds = (digits b n).reverse := by
  constructor
  · intro h
    have hvalue := h.value
    rw [value_eq_ofDigits] at hvalue
    by_cases hhead : ds.head? = some 0
    · have hds := h.leading hhead
      rw [hds] at hvalue ⊢
      rw [← hvalue]
      rfl
    · have hlast : ∀ hne : ds.reverse ≠ [], ds.reverse.getLast hne ≠ 0 := by
        intro hne hzero
        apply hhead
        rw [← List.reverse_reverse ds, List.head?_reverse,
          List.getLast?_eq_getLast_of_ne_nil hne, hzero]
      have hdigits := Nat.digits_ofDigits b hb ds.reverse
        (fun d hd => h.digit d (List.mem_reverse.mp hd)) hlast
      rw [hvalue] at hdigits
      have hzero : n ≠ 0 := by
        rintro rfl
        rw [Nat.digits_zero] at hdigits
        exact h.nonempty (List.reverse_eq_nil_iff.mp hdigits.symm)
      rw [digits, if_neg hzero, hdigits, List.reverse_reverse]
  · rintro rfl
    exact canonical_digits hb n

end Numeral
