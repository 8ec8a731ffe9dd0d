import Mathlib.Data.BitVec

/-!
# Bit vectors as sets of flags

`a` is within `b` if it has no bit that `b` does not have.

## Main results

- `Within.meets` — a mask that meets `a` meets `b`
- `Within.eq_zero` — `a` is empty if it meets none of the parts of `b`
-/

namespace Mask

variable {n : ℕ} {a b c m : BitVec n}

/-- All bits of `a` are bits of `b`. -/
def Within (a b : BitVec n) : Prop := a &&& ~~~b = 0

instance : Decidable (Within a b) := inferInstanceAs (Decidable (_ = _))

/-- `a & m`, as a condition. -/
def meets (a m : BitVec n) : Bool := a &&& m != 0

theorem meets_iff : meets a m = true ↔ a &&& m ≠ 0 := by
  rw [meets, bne_iff_ne]

theorem not_meets_iff : meets a m = false ↔ a &&& m = 0 := by
  rw [meets, bne_eq_false_iff_eq]

theorem within_iff : Within a b ↔ ∀ i, a.getLsbD i = true → b.getLsbD i = true := by
  constructor
  · intro h i hi
    have hbit := congrArg (BitVec.getLsbD · i) h
    rw [BitVec.getLsbD_and, BitVec.getLsbD_not, hi] at hbit
    simpa [BitVec.lt_of_getLsbD hi] using hbit
  · intro h
    refine BitVec.eq_of_getLsbD_eq fun i hi => ?_
    rw [BitVec.getLsbD_and, BitVec.getLsbD_not]
    cases ha : a.getLsbD i with
    | false => simp
    | true => simp [h i ha]

theorem Within.and_eq (h : Within a b) : a &&& b = a := by
  refine BitVec.eq_of_getLsbD_eq fun i _ => ?_
  rw [BitVec.getLsbD_and]
  cases ha : a.getLsbD i with
  | false => rfl
  | true => rw [within_iff.mp h i ha]; rfl

theorem Within.trans (hab : Within a b) (hbc : Within b c) : Within a c :=
  within_iff.mpr fun i hi => within_iff.mp hbc i (within_iff.mp hab i hi)

theorem Within.signExtend (h : Within a b) (hn : 0 < n) (k : ℕ) :
    Within (a.signExtend k) (b.signExtend k) := by
  show a.signExtend k &&& ~~~b.signExtend k = 0
  rw [← BitVec.signExtend_not hn, ← BitVec.signExtend_and, show a &&& ~~~b = 0 from h]
  exact BitVec.eq_of_getLsbD_eq fun i _ => by simp [BitVec.getLsbD_signExtend]

theorem Within.meets (h : Within a b) (hm : meets a m = true) : meets b m = true := by
  rw [meets_iff] at hm ⊢
  intro hb
  refine hm ?_
  rw [← h.and_eq, BitVec.and_assoc, hb]
  exact BitVec.and_zero

theorem meets_or : meets a (b ||| c) = (meets a b || meets a c) := by
  rw [Bool.eq_iff_iff, Bool.or_eq_true, meets_iff, meets_iff, meets_iff, ← not_and_or, not_iff_not,
    BitVec.and_or_distrib_left]
  exact BitVec.or_eq_zero_iff

theorem Within.eq_zero (h : Within a b) (hb : Mask.meets a b = false) : a = 0 := by
  rw [← h.and_eq]
  exact not_meets_iff.mp hb

end Mask
