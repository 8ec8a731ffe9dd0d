import Dxian.Base.Fault
import Dxian.Lib.CInt
import Dxian.Lib.Monitor

/-!
# The latch

`wait` returns when `count_` is not positive. `countDown` notifies only if it makes `count_`
zero, which is the one step in which it stops being positive.

## Main results

- `CountDownLatch.announces` — no `countDown` ends the wait in silence
-/

namespace Dxian

open Transition

namespace CountDownLatch

/-- The calls that change `count_`. -/
inductive Call
  | countDown

/-- `CountDownLatch::countDown`: the count and whether `notifyAll` is called. -/
def countDown (count : ℤ) : Except Fault (ℤ × Bool) := do
  let count ← (CInt.ofInt count - 1).get .overflow
  return (count, count == 0)

end CountDownLatch

/-- `class CountDownLatch`; `count_ > 0` is the condition of the loop in `wait`. -/
def countDownLatch : Monitor ℤ CountDownLatch.Call Fault where
  init := CInt.InRange
  busy count := 0 < count
  update | .countDown => CountDownLatch.countDown

namespace CountDownLatch

theorem countDown_eq_ok {count count' : ℤ} {notified : Bool}
    (h : countDown count = .ok (count', notified)) :
    count' = count - 1 ∧ notified = (count' == 0) := by
  obtain ⟨n, hn, hreturn⟩ := exists_of_bind_eq_ok h
  obtain ⟨a, b, ha, hb, hsub, -⟩ := CInt.sub_eq_val (CInt.get_eq_ok hn)
  obtain rfl := (CInt.ofInt_eq_val ha).1
  have hone : 1 = b := CInt.literal_eq_val hb
  cases hreturn
  exact ⟨by rw [← hsub, hone], rfl⟩

theorem not_busy_iff {count : ℤ} : countDownLatch.busy count = false ↔ count ≤ 0 := by
  rw [← Int.not_lt, ← decide_eq_false_iff_not]
  rfl

/-- From 1 the count goes to 0, which is notified. -/
theorem announces : countDownLatch.Announces := by
  intro a count count' notified h hbusy hfree
  cases a with
  | countDown =>
    obtain ⟨hcount, hnotified⟩ := countDown_eq_ok h
    have hpos : 0 < count := of_decide_eq_true hbusy
    have hnonpos := not_busy_iff.mp hfree
    rw [hnotified, beq_iff_eq]
    omega

end CountDownLatch

end Dxian
