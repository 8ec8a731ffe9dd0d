import Mathlib.Order.Basic
import Mathlib.Tactic.Ring

/-!
# Timestamps

`muduo::Timestamp` is a count of microseconds since the epoch. The count is a
mathematical integer here, and so are the differences: where the source would
overflow `int64_t` its behaviour is undefined, and it is left to the users of
these functions to speak of the other runs only.
-/

namespace Dxian

/-- `Timestamp`: microseconds since the epoch, UTC. -/
structure Timestamp where
  microSecondsSinceEpoch : ℤ
deriving DecidableEq

namespace Timestamp

theorem microSecondsSinceEpoch_injective :
    Function.Injective microSecondsSinceEpoch := by
  rintro ⟨a⟩ ⟨b⟩ rfl
  rfl

instance : LinearOrder Timestamp :=
  LinearOrder.lift' microSecondsSinceEpoch microSecondsSinceEpoch_injective

theorem lt_iff {a b : Timestamp} :
    a < b ↔ a.microSecondsSinceEpoch < b.microSecondsSinceEpoch := Iff.rfl

theorem le_iff {a b : Timestamp} :
    a ≤ b ↔ a.microSecondsSinceEpoch ≤ b.microSecondsSinceEpoch := Iff.rfl

/-- `Timestamp::invalid()`, also the value of `Timestamp()`. -/
def invalid : Timestamp := ⟨0⟩

/-- `Timestamp::valid()`. -/
def valid (t : Timestamp) : Bool := 0 < t.microSecondsSinceEpoch

def kMicroSecondsPerSecond : ℤ := 1000 * 1000

theorem valid_iff {t : Timestamp} : t.valid = true ↔ invalid < t := by
  simp [valid, invalid, lt_iff]

end Timestamp

/-- A `double` number of seconds, as far as the timers look at it: whether it
exceeds `0.0`, and what `static_cast<int64_t>(seconds * kMicroSecondsPerSecond)`
gives. The cast truncates, so a positive interval may be zero microseconds but
never a negative number of them. -/
structure Seconds where
  positive : Bool
  microSeconds : ℤ
  microSeconds_nonneg : positive = true → 0 ≤ microSeconds
deriving DecidableEq

/-- `0.0`, the interval of a timer that does not repeat. -/
def Seconds.zero : Seconds := ⟨false, 0, by simp⟩

/-- `addTime`. -/
def addTime (timestamp : Timestamp) (seconds : Seconds) : Timestamp :=
  ⟨timestamp.microSecondsSinceEpoch + seconds.microSeconds⟩

/-- A positive interval never moves a timestamp back. -/
theorem le_addTime {timestamp : Timestamp} {seconds : Seconds} (h : seconds.positive = true) :
    timestamp ≤ addTime timestamp seconds := by
  have := seconds.microSeconds_nonneg h
  simp only [Timestamp.le_iff, addTime]
  omega

/-- `struct timespec`. -/
structure Timespec where
  tvSec : ℤ
  tvNsec : ℤ
deriving DecidableEq

/-- `howMuchTimeFromNow`, with the reading of `Timestamp::now()` as an argument, as long as
the difference is of type `int64_t`. -/
def howMuchTimeFromNow (when now : Timestamp) : Timespec :=
  let microseconds := when.microSecondsSinceEpoch - now.microSecondsSinceEpoch
  let microseconds := if microseconds < 100 then 100 else microseconds
  { tvSec := microseconds.tdiv Timestamp.kMicroSecondsPerSecond
    tvNsec := microseconds.tmod Timestamp.kMicroSecondsPerSecond * 1000 }

/-- The delay programmed into the timerfd is never below 100 microseconds; in
particular it is not zero, which would disarm the timer. -/
theorem howMuchTimeFromNow_delay (when now : Timestamp) :
    100 * 1000 ≤ (howMuchTimeFromNow when now).tvSec * 1000000000 +
      (howMuchTimeFromNow when now).tvNsec := by
  unfold howMuchTimeFromNow Timestamp.kMicroSecondsPerSecond
  dsimp only
  generalize hm : (if when.microSecondsSinceEpoch - now.microSecondsSinceEpoch < 100 then 100
    else when.microSecondsSinceEpoch - now.microSecondsSinceEpoch) = m
  have hle : 100 ≤ m := by rw [← hm]; split <;> omega
  have hdiv := Int.mul_tdiv_add_tmod m (1000 * 1000)
  calc 100 * 1000 ≤ m * 1000 := by omega
    _ = (1000 * 1000 * m.tdiv (1000 * 1000) + m.tmod (1000 * 1000)) * 1000 := by rw [hdiv]
    _ = m.tdiv (1000 * 1000) * 1000000000 + m.tmod (1000 * 1000) * 1000 := by ring

end Dxian
