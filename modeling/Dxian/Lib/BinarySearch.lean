import Mathlib.Data.List.Basic

/-!
# Binary search

`upperBound` is `std::upper_bound`: the position of the first element of a sorted list
that comes after a value. `after` says which elements do. What holds of the two
neighbours of the position does not rest on the order of the list.

## Main results

- `upperBound_bounds` — the neighbours of the position, in any list
- `lt_upperBound_iff` — the position, in a list that is sorted
- `filter_eq_take` — the elements before the position
-/

namespace BinarySearch

variable {α : Type*} (after : α → Bool) (l : List α)

/-- The loop over the `len` elements from `first` on. -/
def upperBoundLoop : ℕ → ℕ → ℕ → ℕ
  | 0, first, _ => first
  | fuel + 1, first, len =>
    if 0 < len then
      let half := len / 2
      if l[first + half]?.any after then upperBoundLoop fuel first half
      else upperBoundLoop fuel (first + half + 1) (len - half - 1)
    else first

/-- `std::upper_bound`. -/
def upperBound : ℕ := upperBoundLoop after l l.length 0 l.length

variable {after l}

/-- The invariant of the loop: the element before `first` is not after the value, and the one
behind the `len` elements is. -/
structure Bounds (after : α → Bool) (l : List α) (first len : ℕ) : Prop where
  le : first + len ≤ l.length
  left : ∀ a, 0 < first → l[first - 1]? = some a → after a = false
  right : ∀ a, l[first + len]? = some a → after a = true

theorem bounds_upperBoundLoop {fuel first len : ℕ} (h : Bounds after l first len)
    (hfuel : len ≤ fuel) : Bounds after l (upperBoundLoop after l fuel first len) 0 := by
  induction fuel generalizing first len with
  | zero =>
    obtain rfl : len = 0 := by omega
    exact h
  | succ fuel ih =>
    rw [upperBoundLoop]
    by_cases hlen : 0 < len
    · rw [if_pos hlen]
      have hle := h.le
      have hlt : first + len / 2 < l.length := by omega
      by_cases hafter : l[first + len / 2]?.any after = true
      · rw [if_pos hafter]
        refine ih ⟨by omega, h.left, fun a ha => ?_⟩ (by omega)
        rw [ha] at hafter
        exact hafter
      · rw [if_neg hafter]
        refine ih ⟨by omega, fun a _ ha => ?_, fun a ha => h.right a ?_⟩ (by omega)
        · rw [show first + len / 2 + 1 - 1 = first + len / 2 by omega] at ha
          rw [ha] at hafter
          simpa using hafter
        · rw [← ha]
          congr 1
          omega
    · obtain rfl : len = 0 := by omega
      rw [if_neg hlen]
      exact h

/-- **The neighbours of the position.** -/
theorem upperBound_bounds (after : α → Bool) (l : List α) :
    Bounds after l (upperBound after l) 0 :=
  bounds_upperBoundLoop ⟨by omega, nofun, by simp⟩ (Nat.le_refl _)

theorem upperBound_le (after : α → Bool) (l : List α) : upperBound after l ≤ l.length :=
  (upperBound_bounds after l).le

/-- If the first element is not after the value, the position is behind it. -/
theorem upperBound_pos {a : α} (ha : l[0]? = some a) (hafter : after a = false) :
    0 < upperBound after l := by
  by_contra hzero
  have hright := (upperBound_bounds after l).right a
  rw [show upperBound after l + 0 = 0 by omega] at hright
  rw [hright ha] at hafter
  cases hafter

/-- **The position in a sorted list.** -/
theorem lt_upperBound_iff (hsorted : l.Pairwise fun a b => after a = true → after b = true)
    {i : ℕ} {a : α} (ha : l[i]? = some a) : i < upperBound after l ↔ after a = false := by
  have hle := upperBound_le after l
  have hbounds := upperBound_bounds after l
  obtain ⟨hi, rfl⟩ := List.getElem?_eq_some_iff.mp ha
  have hmono : ∀ j k (hj : j < l.length) (hk : k < l.length), j ≤ k →
      after l[j] = true → after l[k] = true := by
    intro j k hj hk hjk hafter
    by_cases heq : j = k
    · subst heq
      exact hafter
    · exact List.pairwise_iff_getElem.mp hsorted j k hj hk (by omega) hafter
  constructor
  · intro hlt
    by_contra hafter
    have hlast := hmono i (upperBound after l - 1) hi (by omega) (by omega) (by simpa using hafter)
    rw [hbounds.left _ (by omega) (List.getElem?_eq_getElem (by omega))] at hlast
    cases hlast
  · intro hafter
    by_contra hge
    have hfirst := hbounds.right _ (List.getElem?_eq_getElem (by omega))
    have hlast := hmono (upperBound after l) i (by omega) hi (by omega) hfirst
    rw [hafter] at hlast
    cases hlast

/-- Every element of a sorted list is after the value if the first one is. -/
theorem upperBound_eq_zero_iff (hsorted : l.Pairwise fun a b => after a = true → after b = true) :
    upperBound after l = 0 ↔ l.head?.all after = true := by
  rw [List.head?_eq_getElem?]
  constructor
  · intro hzero
    have hright := (upperBound_bounds after l).right
    rw [hzero] at hright
    cases ha : l[0]? with
    | none => rfl
    | some a => exact hright a ha
  · intro hall
    by_contra hpos
    have hle := upperBound_le after l
    have ha : l[0]? = some l[0] := List.getElem?_eq_getElem (by omega)
    rw [ha, Option.all_some,
      (lt_upperBound_iff hsorted ha).mp (by omega)] at hall
    cases hall

/-- The elements before the position are those that are not after the value. -/
theorem filter_eq_take (hsorted : l.Pairwise fun a b => after a = true → after b = true) :
    (l.filter fun a => !after a) = l.take (upperBound after l) := by
  have hfirst : ∀ a ∈ l.take (upperBound after l), (!after a) = true := by
    intro a ha
    obtain ⟨i, hi, rfl⟩ := List.mem_take_iff_getElem.mp ha
    rw [(lt_upperBound_iff hsorted (List.getElem?_eq_getElem (by omega))).mp (by omega)]
    rfl
  have hrest : ∀ a ∈ l.drop (upperBound after l), ¬ (!after a) = true := by
    intro a ha hnot
    obtain ⟨i, hi, rfl⟩ := List.mem_drop_iff_getElem.mp ha
    have hafter : after l[upperBound after l + i] = false := by simpa using hnot
    have hlt := (lt_upperBound_iff hsorted (List.getElem?_eq_getElem (by omega))).mpr hafter
    omega
  conv_lhs => rw [← List.take_append_drop (upperBound after l) l]
  rw [List.filter_append, List.filter_eq_self.mpr hfirst, List.filter_eq_nil_iff.mpr hrest,
    List.append_nil]

end BinarySearch
