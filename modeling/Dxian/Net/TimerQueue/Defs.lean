import Dxian.Lib.OrderedSet
import Dxian.Net.Timer
import Mathlib.Data.Prod.Lex

/-!
# The timer queue

`TimerQueue` keeps its timers twice, in `timers_` sorted by expiration and in
`activeTimers_` sorted by address, and holds the timers it is firing in neither.
The members of the class are functions to `Except Fault` here: every `assert`
and every access through a pointer can fail.

`handleRead` is cut where it calls out: `beginHandleRead` runs up to the first
callback, `runCallback` starts one, `endHandleRead` follows the last.
-/

namespace Dxian

/-- `TimerQueue::Entry`, a pair ordered by expiration and then by address. -/
@[ext] structure Entry where
  expiration : Timestamp
  timer : Ptr
deriving DecidableEq

/-- `TimerQueue::ActiveTimer`, a pair ordered by address and then by sequence. -/
@[ext] structure ActiveTimer where
  timer : Ptr
  sequence : ℤ
deriving DecidableEq

instance : LinearOrder Entry :=
  LinearOrder.lift' (fun e => toLex (e.expiration, e.timer)) fun a b h => by
    have := toLex.injective h
    simp only [Prod.mk.injEq] at this
    exact Entry.ext this.1 this.2

instance : LinearOrder ActiveTimer :=
  LinearOrder.lift' (fun a => toLex (a.timer, a.sequence)) fun a b h => by
    have := toLex.injective h
    simp only [Prod.mk.injEq] at this
    exact ActiveTimer.ext this.1 this.2

theorem Entry.lt_iff {a b : Entry} :
    a < b ↔ a.expiration < b.expiration ∨ a.expiration = b.expiration ∧ a.timer < b.timer :=
  Prod.Lex.toLex_lt_toLex

theorem Entry.expiration_le_of_le {a b : Entry} (h : a ≤ b) : a.expiration ≤ b.expiration := by
  rcases h.eq_or_lt with rfl | h
  · exact le_rfl
  · rcases Entry.lt_iff.mp h with h | h
    · exact h.le
    · exact h.1.le

/-- The `ActiveTimer` that a `TimerId` stands for. -/
def TimerId.toActive (id : TimerId) : ActiveTimer := ⟨id.timer, id.sequence⟩

/-- What the last `timerfd_settime` programmed: the expiration that `resetTimerfd`
was called with and the delay it computed. -/
structure Alarm where
  expiration : Timestamp
  value : Timespec

/-- `class TimerQueue`, with the heap its timers live in. `alarm` is the kernel's
view of `timerfd_`: `none` while it is disarmed. -/
structure TimerQueue where
  mem : Memory
  timers : OrderedSet Entry
  activeTimers : OrderedSet ActiveTimer
  callingExpiredTimers : Bool
  cancelingTimers : OrderedSet ActiveTimer
  alarm : Option Alarm

namespace TimerQueue

/-- The queue as constructed. -/
def empty (mem : Memory) : TimerQueue where
  mem := mem
  timers := ∅
  activeTimers := ∅
  callingExpiredTimers := false
  cancelingTimers := ∅
  alarm := none

/-- `readTimerfd`: the read disarms the one-shot timer. -/
def readTimerfd (q : TimerQueue) : TimerQueue := { q with alarm := none }

/-- `resetTimerfd`; `clock` is what `howMuchTimeFromNow` reads. -/
def resetTimerfd (q : TimerQueue) (expiration clock : Timestamp) : TimerQueue :=
  { q with alarm := some ⟨expiration, howMuchTimeFromNow expiration clock⟩ }

/-- `TimerQueue::insert`. -/
def insert (q : TimerQueue) (timer : Ptr) : Except Fault (Bool × TimerQueue) := do
  check (q.timers.size == q.activeTimers.size)
  let t ← q.mem.deref timer
  let earliestChanged := q.timers.first?.all (t.expiration < ·.expiration)
  let (timers, inserted) := q.timers.insert ⟨t.expiration, timer⟩
  check inserted
  let (activeTimers, inserted) := q.activeTimers.insert ⟨timer, t.sequence⟩
  check inserted
  check (timers.size == activeTimers.size)
  return (earliestChanged, { q with timers := timers, activeTimers := activeTimers })

/-- `TimerQueue::addTimerInLoop`. -/
def addTimerInLoop (q : TimerQueue) (timer : Ptr) (clock : Timestamp) :
    Except Fault TimerQueue := do
  let (earliestChanged, q) ← q.insert timer
  if earliestChanged then
    let t ← q.mem.deref timer
    return q.resetTimerfd t.expiration clock
  else
    return q

/-- `TimerQueue::cancelInLoop`. -/
def cancelInLoop (q : TimerQueue) (timerId : TimerId) : Except Fault TimerQueue := do
  check (q.timers.size == q.activeTimers.size)
  let timer := timerId.toActive
  let q ←
    if timer ∈ q.activeTimers then do
      let t ← q.mem.deref timer.timer
      let (timers, n) := q.timers.erase ⟨t.expiration, timer.timer⟩
      check (n == 1)
      let mem ← q.mem.delete timer.timer
      let (activeTimers, _) := q.activeTimers.erase timer
      pure { q with mem := mem, timers := timers, activeTimers := activeTimers }
    else if q.callingExpiredTimers then
      pure { q with cancelingTimers := (q.cancelingTimers.insert timer).1 }
    else
      pure q
  check (q.timers.size == q.activeTimers.size)
  return q

/-- The loop of `getExpired` that takes the expired timers out of `activeTimers_`. -/
def eraseActive (mem : Memory) (active : OrderedSet ActiveTimer) :
    List Entry → Except Fault (OrderedSet ActiveTimer)
  | [] => return active
  | it :: rest => do
    let t ← mem.deref it.timer
    let (active, n) := active.erase ⟨it.timer, t.sequence⟩
    check (n == 1)
    eraseActive mem active rest

/-- `TimerQueue::getExpired`. -/
def getExpired (q : TimerQueue) (now : Timestamp) : Except Fault (List Entry × TimerQueue) := do
  check (q.timers.size == q.activeTimers.size)
  let sentry : Entry := ⟨now, uintptrMax⟩
  let (expired, timers) := q.timers.lowerBound sentry
  check (timers.first?.all (now < ·.expiration))
  let activeTimers ← eraseActive q.mem q.activeTimers expired.toList
  check (timers.size == activeTimers.size)
  return (expired.toList, { q with timers := timers, activeTimers := activeTimers })

/-- The loop of `reset`: a repeating timer that was not cancelled is restarted
and inserted again, any other is deleted. -/
def resetEach (now : Timestamp) : List Entry → TimerQueue → Except Fault TimerQueue
  | [], q => return q
  | it :: rest, q => do
    let t ← q.mem.deref it.timer
    let timer : ActiveTimer := ⟨it.timer, t.sequence⟩
    if t.repeats ∧ timer ∉ q.cancelingTimers then
      let mem ← q.mem.restart it.timer now
      let (_, q) ← { q with mem := mem }.insert it.timer
      resetEach now rest q
    else
      let mem ← q.mem.delete it.timer
      resetEach now rest { q with mem := mem }

/-- `nextExpire` in `reset`: the expiration of the first Timer, read through its
pointer, and `Timestamp()` when there is none. -/
def firstExpiration (q : TimerQueue) : Except Fault Timestamp :=
  match q.timers.first? with
  | none => pure Timestamp.invalid
  | some it => Timer.expiration <$> q.mem.deref it.timer

/-- `TimerQueue::reset`. -/
def reset (q : TimerQueue) (expired : List Entry) (now clock : Timestamp) :
    Except Fault TimerQueue := do
  let q ← resetEach now expired q
  let nextExpire ← q.firstExpiration
  if nextExpire.valid then
    return q.resetTimerfd nextExpire clock
  else
    return q

/-- `TimerQueue::handleRead` up to the loop that runs the callbacks; `now` is the
reading of the clock. -/
def beginHandleRead (q : TimerQueue) (now : Timestamp) :
    Except Fault (List Entry × TimerQueue) := do
  let (expired, q) ← q.readTimerfd.getExpired now
  return (expired, { q with callingExpiredTimers := true, cancelingTimers := ∅ })

/-- `it.second->run()`: the call goes through the pointer. The answer is the
sequence number of the Timer whose callback starts. -/
def runCallback (q : TimerQueue) (it : Entry) : Except Fault ℤ := do
  let t ← q.mem.deref it.timer
  return t.sequence

/-- `TimerQueue::handleRead` after the last callback. -/
def endHandleRead (q : TimerQueue) (expired : List Entry) (now clock : Timestamp) :
    Except Fault TimerQueue :=
  { q with callingExpiredTimers := false }.reset expired now clock

end TimerQueue

end Dxian
