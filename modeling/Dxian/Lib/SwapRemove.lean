import Mathlib.Data.List.Basic
import Mathlib.Tactic.TypeStar

/-!
# Removing from a vector by swapping with the last element

A vector whose order does not matter gives up an element in constant time: it is
swapped with the last one, which is then popped. Every other position keeps its
element, and the last element is found where the removed one was.
-/

namespace SwapRemove

variable {α : Type*}

/-- Exchange the elements at `i` and `j`. -/
def swap (l : List α) (i j : ℕ) : List α :=
  match l[i]?, l[j]? with
  | some x, some y => (l.set i y).set j x
  | _, _ => l

theorem swap_eq {l : List α} {i j : ℕ} {x y : α} (hi : l[i]? = some x) (hj : l[j]? = some y) :
    swap l i j = (l.set i y).set j x := by
  simp only [swap, hi, hj]

@[simp] theorem length_swap (l : List α) (i j : ℕ) : (swap l i j).length = l.length := by
  unfold swap
  split <;> simp

/-- Swap the element at `i` with the last one, and pop. -/
def swapRemove (l : List α) (i : ℕ) : List α := (swap l i (l.length - 1)).dropLast

@[simp] theorem length_swapRemove (l : List α) (i : ℕ) :
    (swapRemove l i).length = l.length - 1 := by
  simp [swapRemove]

/-- The last element needs no swap. -/
theorem swapRemove_last (l : List α) : swapRemove l (l.length - 1) = l.dropLast := by
  unfold swapRemove swap
  cases h : l[l.length - 1]? with
  | none => rfl
  | some x =>
    obtain ⟨hlt, hx⟩ := List.getElem?_eq_some_iff.mp h
    simp only [List.set_set]
    rw [← hx, List.set_getElem_self]

/-- What is where after a removal. -/
theorem getElem?_swapRemove {l : List α} {i : ℕ} (hi : i < l.length) (j : ℕ) :
    (swapRemove l i)[j]? =
      if j < l.length - 1 then if j = i then l[l.length - 1]? else l[j]? else none := by
  have hlast : l.length - 1 < l.length := by omega
  have hx := List.getElem?_eq_getElem hi
  have hy := List.getElem?_eq_getElem hlast
  rw [swapRemove, swap_eq hx hy, List.getElem?_dropLast, List.length_set, List.length_set]
  by_cases hj : j < l.length - 1
  · rw [if_pos hj, if_pos hj, List.getElem?_set_ne (by omega)]
    by_cases hji : j = i
    · subst hji
      rw [if_pos rfl, List.getElem?_set_self hi, hy]
    · rw [if_neg hji, List.getElem?_set_ne (Ne.symm hji)]
  · rw [if_neg hj, if_neg hj]

end SwapRemove
