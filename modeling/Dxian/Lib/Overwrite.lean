import Mathlib.Data.List.Basic
import Mathlib.Data.Nat.Notation

/-!
# Writing into a buffer

Writes into an array of fixed size, as functions on its contents.

## Main results

- `overwrite_overwrite` — a write after another one
- `reverseRange_overwrite` — reversing what has just been written
-/

namespace Overwrite

variable {α : Type*} {data l r : List α} {p : ℕ}

/-- The contents after the elements of `l` are written from position `p` on. -/
def overwrite (data : List α) (p : ℕ) (l : List α) : List α :=
  data.take p ++ (l ++ data.drop (p + l.length))

/-- `std::reverse` of the elements from `first` to `last`. -/
def reverseRange (data : List α) (first last : ℕ) : List α :=
  data.take first ++ (((data.take last).drop first).reverse ++ data.drop last)

theorem set_eq_overwrite {a : α} (h : p < data.length) : data.set p a = overwrite data p [a] := by
  rw [List.set_eq_take_append_cons_drop, if_pos h]
  rfl

theorem length_take (h : p ≤ data.length) : (data.take p).length = p := by
  rw [List.length_take]
  omega

theorem length_overwrite (h : p + l.length ≤ data.length) :
    (overwrite data p l).length = data.length := by
  rw [overwrite, List.length_append, List.length_append, length_take (by omega), List.length_drop]
  omega

/-- What comes before the write is kept. -/
theorem take_overwrite (h : p ≤ data.length) : (overwrite data p l).take p = data.take p :=
  List.take_left' (length_take h)

theorem take_overwrite_append (h : p ≤ data.length) :
    (overwrite data p (l ++ r)).take (p + l.length) = data.take p ++ l := by
  have hlength : (data.take p ++ l).length = p + l.length := by
    rw [List.length_append, length_take h]
  rw [overwrite, List.append_assoc, ← List.append_assoc]
  exact List.take_left' hlength

theorem drop_overwrite_append (h : p ≤ data.length) :
    (overwrite data p (l ++ r)).drop (p + l.length) =
      r ++ data.drop (p + (l ++ r).length) := by
  have hlength : (data.take p ++ l).length = p + l.length := by
    rw [List.length_append, length_take h]
  rw [overwrite, List.append_assoc, ← List.append_assoc]
  exact List.drop_left' hlength

theorem take_overwrite_self (h : p ≤ data.length) :
    (overwrite data p l).take (p + l.length) = data.take p ++ l := by
  have htake := take_overwrite_append (l := l) (r := []) h
  rwa [List.append_nil] at htake

/-- **A write after another one.** -/
theorem overwrite_overwrite (h : p ≤ data.length) :
    overwrite (overwrite data p l) (p + l.length) r = overwrite data p (l ++ r) := by
  have hdrop := drop_overwrite_append (l := l) (r := []) h
  rw [List.append_nil, List.nil_append] at hdrop
  rw [overwrite, take_overwrite_self h, ← List.drop_drop, hdrop, List.drop_drop, overwrite,
    List.length_append, Nat.add_assoc, List.append_assoc, List.append_assoc]

/-- **Reversing what has just been written.** -/
theorem reverseRange_overwrite (h : p ≤ data.length) :
    reverseRange (overwrite data p (l ++ r)) p (p + l.length) =
      overwrite data p (l.reverse ++ r) := by
  have hreverse : (l.reverse ++ r).length = (l ++ r).length := by
    rw [List.length_append, List.length_append, List.length_reverse]
  rw [reverseRange, take_overwrite h, take_overwrite_append h, drop_overwrite_append h,
    List.drop_left' (length_take h), overwrite, hreverse, List.append_assoc]

end Overwrite
