import Dxian.Lib.CInt
import Dxian.Net.TimerQueue.Alarm
import Dxian.Net.TimerQueue.Cancellation

/-!
# The timerfd and the clock

`howMuchTimeFromNow` reads the clock and computes a delay, with which `timerfd_settime` is
called a little later; the kernel makes the timerfd readable when the delay has passed since
then. A `Watch` is what this adds to a timer queue: the time that the loop thread has come to,
and the timerfd. The times are those of one clock, and the runs are those in which the
arithmetic on `int64_t` does not overflow.

## Main results

- `Punctual.step` — the timerfd becomes readable in time for every queued timer
- `Effect.due`, `Effect.pending` — what becomes of a timer that is due
-/

namespace Dxian

open Transition

/-- The delay that `timerfd_settime` is given, in microseconds. -/
def Timespec.microSeconds (value : Timespec) : ℤ :=
  value.tvSec * Timestamp.kMicroSecondsPerSecond + value.tvNsec / 1000

theorem howMuchTimeFromNow_microSeconds (when now : Timestamp) :
    (howMuchTimeFromNow when now).microSeconds =
      max 100 (when.microSecondsSinceEpoch - now.microSecondsSinceEpoch) := by
  unfold howMuchTimeFromNow Timespec.microSeconds Timestamp.kMicroSecondsPerSecond
  dsimp only
  generalize hm : (if when.microSecondsSinceEpoch - now.microSecondsSinceEpoch < 100 then 100
    else when.microSecondsSinceEpoch - now.microSecondsSinceEpoch) = m
  have hmax : m = max 100 (when.microSecondsSinceEpoch - now.microSecondsSinceEpoch) := by
    rw [← hm]
    split <;> omega
  have hdiv := Int.mul_tdiv_add_tmod m (1000 * 1000)
  rw [Int.mul_ediv_cancel _ (by decide), ← hmax, Int.mul_comm]
  exact hdiv

namespace TimerQueue

/-- An armed timerfd: the reading of the clock that the delay was computed with, the time of
`timerfd_settime`, and from when on it is readable. -/
structure Timerfd where
  reading : Timestamp
  start : Timestamp
  readable : Timestamp

/-- What goes by between the reading of the clock and `timerfd_settime`. -/
def Timerfd.lag (t : Timerfd) : ℤ :=
  t.start.microSecondsSinceEpoch - t.reading.microSecondsSinceEpoch

/-- The last time that the loop thread is known to have come to, and its timerfd if it is
armed. -/
structure Watch where
  time : Timestamp
  timerfd : Option Timerfd

/-- The reading of the clock with which a step calls `resetTimerfd`, if it does. -/
def State.resets (s : State) : Action → Option Timestamp
  | .addTimerInLoop a clock =>
    if (s.queue.insert a.timer).toOption.any Prod.fst then some clock else none
  | .reset clock =>
    match s.phase with
    | .calling now done _ =>
      if (do firstExpiration (← resetEach now done { s.queue with
          callingExpiredTimers := false })).toOption.any Timestamp.valid then some clock else none
    | .idle => none
  | _ => none

/-- The reading of the clock in a step. -/
def State.reads (s : State) : Action → Option Timestamp
  | .handleRead now => some now
  | a => s.resets a

/-- The clock and the timerfd after a step to `s'`: the read in `handleRead` disarms the
timerfd, `timerfd_settime` arms it anew, at the time `start`. -/
def Watch.after (k : Watch) (s : State) (a : Action) (start : Timestamp) (s' : State) : Watch where
  time := if (s.resets a).isSome then start else (s.reads a).getD k.time
  timerfd :=
    match a with
    | .handleRead _ => none
    | a =>
      match s.resets a with
      | some clock => s'.queue.alarm.map fun alarm =>
          ⟨clock, start, ⟨start.microSecondsSinceEpoch + alarm.value.microSeconds⟩⟩
      | none => k.timerfd

/-- The expirations that a step leads to are of type `int64_t`, and so is the difference in
`howMuchTimeFromNow`. -/
def State.Fits (s : State) (a : Action) (s' : State) : Prop :=
  (∀ e ∈ s'.queue.timers, CInt.InRange64 e.expiration.microSecondsSinceEpoch) ∧
  ∀ c ∈ s.resets a, ∀ alarm ∈ s'.queue.alarm, CInt.InRange64
    (alarm.expiration.microSecondsSinceEpoch - c.microSecondsSinceEpoch)

instance (s : State) (a : Action) (s' : State) : Decidable (s.Fits a s') :=
  inferInstanceAs (Decidable (_ ∧ _))

/-- A timer queue whose clock does not go back. -/
inductive TimedStep (x : State × Watch) : Action → Except Fault (State × Watch) → Prop
  | mk {a start r} (h : Step x.1 a r) (hclock : ∀ c ∈ x.1.reads a, x.2.time ≤ c)
      (hstart : ∀ c ∈ x.1.resets a, c ≤ start) (hfits : ∀ s', r = .ok s' → x.1.Fits a s') :
      TimedStep x a (r.map fun s' => (s', x.2.after x.1 a start s'))

/-- The timer queue of a loop that starts empty, at a valid time. -/
def timedMachine : System (State × Watch) Action Fault where
  init x := machine.init x.1 ∧ Timestamp.invalid < x.2.time ∧ x.2.timerfd = none
  step := TimedStep

/-! ## The timerfd is readable in time -/

/-- The timerfd agrees with the alarm, which was programmed at some reading of the clock. -/
def Watch.Agrees (k : Watch) (q : TimerQueue) : Prop :=
  match q.alarm with
  | some alarm => ∃ c start, c ≤ start ∧ start ≤ k.time ∧ k.timerfd = some ⟨c, start,
      ⟨start.microSecondsSinceEpoch + (howMuchTimeFromNow alarm.expiration c).microSeconds⟩⟩
  | none => k.timerfd = none

/-- The clock goes on. -/
theorem Watch.Agrees.mono {k : Watch} {q : TimerQueue} (h : k.Agrees q) {q' : TimerQueue}
    {k' : Watch} (halarm : q'.alarm = q.alarm) (htimerfd : k'.timerfd = k.timerfd)
    (htime : k.time ≤ k'.time) : k'.Agrees q' := by
  rw [Watch.Agrees] at h ⊢
  rw [halarm, htimerfd]
  cases hold : q.alarm with
  | none =>
    rw [hold] at h
    exact h
  | some alarm =>
    rw [hold] at h
    obtain ⟨c, start, hc, hstart, heq⟩ := h
    exact ⟨c, start, hc, hstart.trans htime, heq⟩

/-- The invariant of a timer queue and its clock. -/
structure Punctual (s : State) (k : Watch) : Prop where
  invariant : Invariant s
  covered : Covered s
  valid : Timestamp.invalid < k.time
  agrees : k.Agrees s.queue

variable {s s' : State} {k : Watch} {a : Action}

/-- What a step does to the alarm and to the timerfd. -/
theorem Step.alarm (inv : Invariant s) (h : Step s a (.ok s')) (k : Watch) (start : Timestamp) :
    (∃ c e, s.resets a = some c ∧ s'.queue.alarm = some ⟨e, howMuchTimeFromNow e c⟩ ∧
      (k.after s a start s').timerfd = some ⟨c, start,
        ⟨start.microSecondsSinceEpoch + (howMuchTimeFromNow e c).microSeconds⟩⟩) ∨
    (s'.queue.alarm = s.queue.alarm ∧ (k.after s a start s').timerfd = k.timerfd) ∨
    (s'.queue.alarm = none ∧ (k.after s a start s').timerfd = none) := by
  have c := inv.consistent
  cases h with
  | newTimer => exact .inr (.inl ⟨rfl, rfl⟩)
  | @addTimerInLoop p t clock _ hout ht hfresh hr =>
    have hactive := inv.not_active_of_fresh hfresh
    have hresets : s.resets (.addTimerInLoop ⟨p, t.sequence⟩ clock) =
        if s.queue.earliestChanged t then some clock else none := by
      rw [State.resets, insert_eq c ht hactive]
      rfl
    rw [addTimerInLoop_eq c ht hactive clock] at hr
    cases hr
    cases hearly : s.queue.earliestChanged t with
    | true =>
      rw [hearly, if_pos rfl] at hresets
      refine .inl ⟨clock, t.expiration, hresets, rfl, ?_⟩
      simp only [Watch.after, hresets]
      rfl
    | false =>
      rw [hearly, if_neg nofun] at hresets
      refine .inr (.inl ⟨rfl, ?_⟩)
      simp only [Watch.after, hresets]
  | cancelInLoop hout hr =>
    obtain ⟨s'', heq, heff⟩ := Step.effect inv (.cancelInLoop hout hr)
    cases heq
    generalize s' = u at heff
    cases heff <;> exact .inr (.inl ⟨rfl, rfl⟩)
  | handleRead hidle hr =>
    obtain ⟨s'', heq, heff⟩ := Step.effect inv (.handleRead hidle hr)
    cases heq
    generalize s' = u at heff
    cases heff with
    | handleRead _ _ _ hq => exact .inr (.inr ⟨congrArg TimerQueue.alarm hq, rfl⟩)
  | run _ _ hr =>
    obtain ⟨_, -, rfl⟩ := exists_of_map_eq_ok hr
    exact .inr (.inl ⟨rfl, rfl⟩)
  | @reset now done clock _ hphase hr =>
    rw [hphase, Phase.batch, List.append_nil] at c
    obtain ⟨q', heq, hreset⟩ := resetEach_eq now done
      { s.queue with callingExpiredTimers := false } (c.congr rfl rfl rfl)
    have hresets : s.resets (.reset clock) = if q'.nextExpire.valid then some clock else none := by
      rw [State.resets, hphase]
      simp only [heq, bind, Except.bind, firstExpiration_eq hreset.consistent]
      rfl
    simp only [endHandleRead, TimerQueue.reset, heq, firstExpiration_eq hreset.consistent, bind,
      Except.bind, pure, Except.pure] at hr
    cases hvalid : q'.nextExpire.valid with
    | true =>
      rw [hvalid, if_pos rfl] at hr hresets
      cases hr
      refine .inl ⟨clock, q'.nextExpire, hresets, rfl, ?_⟩
      simp only [Watch.after, hresets]
      rfl
    | false =>
      rw [hvalid, if_neg nofun] at hr hresets
      cases hr
      refine .inr (.inl ⟨hreset.alarm, ?_⟩)
      simp only [Watch.after, hresets]

/-- A reading for `timerfd_settime` is a reading. -/
theorem State.reads_of_resets {c : Timestamp} (h : s.resets a = some c) : s.reads a = some c := by
  cases a with
  | handleRead => cases h
  | _ => exact h

/-- The clock does not go back. -/
theorem Watch.time_le_after {start : Timestamp} (hclock : ∀ c ∈ s.reads a, k.time ≤ c)
    (hstart : ∀ c ∈ s.resets a, c ≤ start) (s' : State) :
    k.time ≤ (k.after s a start s').time := by
  simp only [Watch.after]
  cases hresets : s.resets a with
  | some c => exact (hclock c (State.reads_of_resets hresets)).trans (hstart c hresets)
  | none =>
    cases hreads : s.reads a with
    | none => exact le_rfl
    | some c => exact hclock c hreads

/-- **Step lemma.** -/
theorem Punctual.step (hp : Punctual s k) (h : Step s a (.ok s')) {start : Timestamp}
    (hclock : ∀ c ∈ s.reads a, k.time ≤ c) (hstart : ∀ c ∈ s.resets a, c ≤ start) :
    Punctual s' (k.after s a start s') := by
  have heff := Step.effect_of_ok hp.invariant h
  have htime := Watch.time_le_after hclock hstart s'
  refine ⟨heff.invariant hp.invariant, heff.covered hp.invariant ?_ hp.covered,
    hp.valid.trans_le htime, ?_⟩
  · rintro now rfl
    exact hp.valid.trans_le (hclock now rfl)
  · rcases h.alarm hp.invariant k start with ⟨c, e, hresets, halarm, htimerfd⟩ |
      ⟨halarm, htimerfd⟩ | ⟨halarm, htimerfd⟩
    · rw [Watch.Agrees, halarm]
      refine ⟨c, start, hstart c hresets, ?_, htimerfd⟩
      simp only [Watch.after, hresets, Option.isSome_some, if_true]
      exact le_rfl
    · exact hp.agrees.mono halarm htimerfd htime
    · rw [Watch.Agrees, halarm]
      exact htimerfd

theorem punctual_of_reachable {x : State × Watch} (h : timedMachine.Reachable x) :
    Punctual x.1 x.2 := by
  refine h.invariant (I := fun x => Punctual x.1 x.2) ?_ ?_
  · rintro ⟨s, k⟩ ⟨⟨mem, rfl⟩, hvalid, htimerfd⟩
    exact ⟨invariant_init mem, ⟨.inr fun e he => by simp [empty] at he, nofun, nofun⟩, hvalid,
      htimerfd⟩
  · rintro x a y hp hstep
    generalize hr : (Except.ok y : Except Fault (State × Watch)) = r at hstep
    cases hstep with
    | mk h hclock hstart =>
      obtain ⟨s', rfl, rfl⟩ := exists_of_map_eq_ok hr.symm
      exact hp.step h hclock hstart

/-- **The timerfd is readable in time** for every queued timer: when the timer expires, or
100 microseconds after the time that the loop thread has come to, but for the lag. -/
theorem Punctual.readable (hp : Punctual s k) (hidle : s.phase = .idle) {e : Entry}
    (he : e ∈ s.queue.timers) : ∃ armed, k.timerfd = some armed ∧
      armed.reading ≤ armed.start ∧ armed.start ≤ k.time ∧
      armed.readable.microSecondsSinceEpoch ≤ max e.expiration.microSecondsSinceEpoch
        (k.time.microSecondsSinceEpoch + 100) + armed.lag := by
  rcases hp.covered.armed with ⟨alarm, halarm, hle⟩ | hlate
  · have hagrees := hp.agrees
    rw [Watch.Agrees, halarm] at hagrees
    obtain ⟨c, start, hc, hstart, htimerfd⟩ := hagrees
    refine ⟨_, htimerfd, hc, hstart, ?_⟩
    have hexpiration := Timestamp.le_iff.mp (hle e he)
    have hreading := Timestamp.le_iff.mp hc
    have htime := Timestamp.le_iff.mp hstart
    rw [howMuchTimeFromNow_microSeconds, Timerfd.lag]
    dsimp only
    omega
  · exact absurd (hlate e he) (by rw [hidle]; exact id)

/-! ## A timer that is due -/

/-- `a` is queued, and expires at `time` at the latest. -/
def State.Due (s : State) (a : ActiveTimer) (time : Timestamp) : Prop :=
  a ∈ s.queue.activeTimers ∧
    ∃ t, s.queue.mem.timerAt a.timer = some t ∧ t.expiration ≤ time

variable {b : ActiveTimer} {time : Timestamp}

/-- **Step lemma** between two batches: a timer that is due stays so, is cancelled, or is taken
into the batch. -/
theorem Effect.due (h : Effect s a s') (inv : Invariant s) (hidle : s.phase = .idle)
    (hdue : s.Due b time) (hclock : ∀ now, a = .handleRead now → time ≤ now) :
    s'.phase = .idle ∧ s'.Due b time ∨ s'.Pending b ∨
      a = .cancelInLoop ⟨b.timer, b.sequence⟩ := by
  obtain ⟨hactive, t, ht, hle⟩ := hdue
  have hseq : t.sequence = b.sequence := (inv.consistent.sequence_eq ht hactive).symm
  cases h with
  | newTimer hfree =>
    exact .inl ⟨hidle, hactive, t, Memory.new_timerAt_of_live hfree ht, hle⟩
  | @added p u clock hout hu hfresh =>
    refine .inl ⟨hidle, ?_, t, ?_, hle⟩
    · dsimp only
      split <;> exact mem_inserted_active.mpr (.inr hactive)
    · dsimp only
      split <;> exact ht
  | @cancelled p u hout hu ha =>
    by_cases hp : b.timer = p
    · subst hp
      cases ht.symm.trans hu
      exact .inr (.inr (by rw [hseq]))
    · refine .inl ⟨hidle, OrderedSet.mem_erase.mpr ⟨fun heq => hp ?_, hactive⟩, t, ?_, hle⟩
      · rw [heq]
      · exact (Memory.released_timerAt_of_ne hu hp).trans ht
  | noted hn hcalling => rw [hidle] at hcalling; cases hcalling
  | ignored => exact .inl ⟨hidle, hactive, t, ht, hle⟩
  | @handleRead now q' _ hc hlate hq =>
    have hentry : (⟨t.expiration, b.timer⟩ : Entry) ∈ s.queue.timers :=
      inv.consistent.queued ht (by rw [hseq]; exact hactive)
    have hmem : q'.mem = s.queue.mem := by rw [hq]
    refine .inr (.inl ⟨_, mem_expired.mpr ⟨hentry, hle.trans (hclock now rfl)⟩, t, ?_, ?_⟩)
    · rw [← ht, ← hmem]
    · rw [hseq]
  | run hphase => cases hidle.symm.trans hphase
  | reset hphase => cases hidle.symm.trans hphase

/-- **Step lemma** in a batch: nothing but its callback takes a timer out of the pending ones. -/
theorem Effect.pending (h : Effect s a s') (inv : Invariant s) (hs : s.Pending b) :
    s'.Pending b ∨ a = .run b := by
  cases a with
  | newTimer | addTimerInLoop | cancelInLoop =>
    exact .inl ((h.pending_iff_of_quiet inv trivial).mpr hs)
  | handleRead now =>
    obtain ⟨it, hit, -⟩ := hs
    cases h with
    | handleRead hidle => rw [hidle] at hit; cases hit
  | run c =>
    obtain ⟨now, done, it, rest, u, hphase, hu, rfl, rfl⟩ := h.of_run
    obtain ⟨jt, hjt, t, ht, rfl⟩ := hs
    rw [hphase] at hjt
    rcases List.mem_cons.mp hjt with rfl | hjt
    · cases hu.symm.trans ht
      exact .inr rfl
    · exact .inl ⟨jt, hjt, t, ht, rfl⟩
  | reset clock =>
    obtain ⟨it, hit, -⟩ := hs
    cases h with
    | reset hphase => rw [hphase] at hit; cases hit

end TimerQueue

end Dxian
