import Dxian.Net.Reactor.Invariant
import Dxian.Net.TimerQueue.Timerfd

/-!
# Timers fire in time

A reactor with the clock of its loop thread and the timerfd of the kernel. The clock does not
go back. In a `poll` the kernel collects the events, and `pollReturnTime_` is read later; if the
`poll` is not interrupted and there is room for all the events, the timerfd is among them when
it is readable by then. Threads still do what they like between the readings of the clock.

## Main results

- `Awaits.step` — a timer that is due when its event is collected is on its way to its callback
- `due_timers_fire` — it is run before the loop comes to its next test
-/

namespace Dxian

open Transition

/-- A reactor, the clock of its loop thread and its timerfd. -/
structure TimedReactor (T F C : Type*) where
  reactor : Reactor T F C
  watch : TimerQueue.Watch

namespace TimedReactor

variable {T F C : Type*}

/-- What a `poll` has returned: the active channels, when the kernel has collected their events,
whether these are all the events there were then, and `pollReturnTime_`. They are not all of
them if a signal interrupts the `poll` or `events_` is full. -/
structure PollReturn (C : Type*) where
  activeChannels : List (ActiveChannel (LoopChannel C))
  collected : Timestamp
  complete : Bool
  pollReturnTime_ : Timestamp

/-- A `poll`, or another step, which has its own reading of the clock if it has one. -/
inductive Action (T F C : Type*)
  | poll (p : PollReturn C)
  | step (x : Reactor.Action T F C)

/-- The reading of the clock in a step of the loop thread. -/
def reads (s : Reactor T F C) (x : Reactor.Action T F C) : Option Timestamp :=
  x.timerLabel.bind s.timers.reads

/-- The reading of the clock with which a step calls `resetTimerfd`. -/
def resets (s : Reactor T F C) (x : Reactor.Action T F C) : Option Timestamp :=
  x.timerLabel.bind s.timers.resets

/-- The clock and the timerfd after a step to `s'` that calls `timerfd_settime` at `start`. -/
def after (k : TimerQueue.Watch) (s : Reactor T F C) (x : Reactor.Action T F C)
    (start : Timestamp) (s' : Reactor T F C) : TimerQueue.Watch :=
  x.timerLabel.elim k fun a => k.after s.timers a start s'.timers

/-- Nothing of type `int64_t` overflows in a step to `s'`. -/
def Fits (s : Reactor T F C) (x : Reactor.Action T F C) (s' : Reactor T F C) : Prop :=
  ∀ a ∈ x.timerLabel, s.timers.Fits a s'.timers

instance (s : Reactor T F C) (x : Reactor.Action T F C) (s' : Reactor T F C) :
    Decidable (Fits s x s') := inferInstanceAs (Decidable (∀ a ∈ x.timerLabel, _))

inductive Step [DecidableEq T] (s : TimedReactor T F C) :
    Action T F C → Except Fault (TimedReactor T F C) → Prop
  | poll {p r} (h : Reactor.Step s.reactor (.loop (.poll p.activeChannels)) r)
      (hclock : s.watch.time ≤ p.collected ∧ p.collected ≤ p.pollReturnTime_)
      (hkernel : p.complete = true → ∀ armed ∈ s.watch.timerfd, armed.readable ≤ p.collected →
        .channel .timerfdChannel ∈ p.activeChannels) :
      Step s (.poll p) (r.map fun s' => ⟨s', { s.watch with time := p.pollReturnTime_ }⟩)
  | step {x start r} (hx : ∀ active, x ≠ .loop (.poll active)) (h : Reactor.Step s.reactor x r)
      (hclock : ∀ c ∈ reads s.reactor x, s.watch.time ≤ c)
      (hstart : ∀ c ∈ resets s.reactor x, c ≤ start)
      (hfits : ∀ s', r = .ok s' → Fits s.reactor x s') :
      Step s (.step x) (r.map fun s' => ⟨s', after s.watch s.reactor x start s'⟩)

/-- A loop from the start of `loop` on, whose own thread may have used the timer queue before. -/
def machine (T F C : Type*) [DecidableEq T] :
    System (TimedReactor T F C) (Action T F C) Fault where
  init s := (Reactor.machine T F C).init s.reactor ∧
    TimerQueue.timedMachine.Reachable (s.reactor.timers, s.watch)
  step := Step

variable [DecidableEq T] {s s' u : TimedReactor T F C}

/-! ## The invariant -/

/-- The reactor keeps its invariant, and its timerfd is programmed in time. -/
structure Invariant (s : TimedReactor T F C) : Prop where
  reactor : Reactor.Invariant s.reactor
  punctual : TimerQueue.Punctual s.reactor.timers s.watch

/-- What a step does. -/
theorem Step.cases (inv : Invariant s) {a : Action T F C} (h : Step s a (.ok s')) :
    (∃ p r, a = .poll p ∧ s' = ⟨r, { s.watch with time := p.pollReturnTime_ }⟩ ∧
      Reactor.Effect s.reactor (.loop (.poll p.activeChannels)) r ∧
      (s.watch.time ≤ p.collected ∧ p.collected ≤ p.pollReturnTime_) ∧
      (p.complete = true → ∀ armed ∈ s.watch.timerfd, armed.readable ≤ p.collected →
        .channel .timerfdChannel ∈ p.activeChannels)) ∨
    (∃ x start r, a = .step x ∧ s' = ⟨r, after s.watch s.reactor x start r⟩ ∧
      Reactor.Effect s.reactor x r ∧ (∀ c ∈ reads s.reactor x, s.watch.time ≤ c) ∧
      ∀ c ∈ resets s.reactor x, c ≤ start) := by
  have heffect : ∀ {x r}, Reactor.Step s.reactor x (.ok r) → Reactor.Effect s.reactor x r := by
    intro x r hstep
    rcases Reactor.Step.effect inv.reactor hstep with ⟨r', hr, heff⟩ | ⟨herr, -⟩
    · cases hr
      exact heff
    · cases herr
  generalize hr : (Except.ok s' : Except Fault (TimedReactor T F C)) = r at h
  cases h with
  | poll h hclock hkernel =>
    obtain ⟨r, rfl, rfl⟩ := exists_of_map_eq_ok hr.symm
    exact .inl ⟨_, r, rfl, rfl, heffect h, hclock, hkernel⟩
  | step hx h hclock hstart =>
    obtain ⟨r, rfl, rfl⟩ := exists_of_map_eq_ok hr.symm
    exact .inr ⟨_, _, r, rfl, rfl, heffect h, hclock, hstart⟩

theorem Invariant.step (inv : Invariant s) {a : Action T F C} (h : Step s a (.ok s')) :
    Invariant s' := by
  have hp := inv.punctual
  rcases h.cases inv with ⟨p, r, -, rfl, heff, hclock, -⟩ |
    ⟨x, start, r, -, rfl, heff, hclock, hstart⟩
  · refine ⟨heff.invariant inv.reactor, ?_⟩
    have htimers : r.timers = s.reactor.timers := heff.timers
    have htime := hclock.1.trans hclock.2
    rw [htimers]
    exact ⟨hp.invariant, hp.covered, hp.valid.trans_le htime, hp.agrees.mono rfl rfl htime⟩
  · refine ⟨heff.invariant inv.reactor, ?_⟩
    have htimers := heff.timers
    rw [after]
    rw [reads] at hclock
    rw [resets] at hstart
    cases hx : x.timerLabel with
    | none =>
      rw [hx] at htimers
      rw [Option.elim_none, htimers]
      exact hp
    | some y =>
      rw [hx] at htimers hclock hstart
      exact hp.step htimers hclock hstart

theorem reachable_invariant (h : (machine T F C).Reachable s) : Invariant s := by
  refine h.invariant (fun {s} hinit => ?_) fun inv hstep => inv.step hstep
  exact ⟨Reactor.invariant_init hinit.1, TimerQueue.punctual_of_reachable hinit.2⟩

/-! ## From `poll` to the callback -/

/-- The loop is about to run the callback of `a`: the timerfd is among the channels to be
handled and `a` has expired, or `a` is in the batch that is being run. -/
inductive Awaits (r : Reactor T F C) (a : ActiveTimer) (time : Timestamp) : Prop
  | due {current active} (hpc : r.loop.pc = .handling current active)
      (hactive : .channel .timerfdChannel ∈ active) (hidle : r.timers.phase = .idle)
      (hdue : r.timers.Due a time)
  | pending (h : r.timers.Pending a)

variable {r r' : Reactor T F C} {a : ActiveTimer} {time : Timestamp}

/-- The timerfd stays among the channels to be handled until it is handled. -/
theorem pc_of_effect {x : Reactor.Action T F C} (h : Reactor.Effect r x r')
    (inv : Reactor.Invariant r) (hx : ∀ now, x ≠ .handleRead now) {current active}
    (hpc : r.loop.pc = .handling current active) (hactive : .channel .timerfdChannel ∈ active) :
    ∃ current' active', r'.loop.pc = .handling current' active' ∧
      .channel .timerfdChannel ∈ active' := by
  by_cases hcalling : x.Calling
  · exact ⟨current, active, (h.of_calling inv hcalling).1.trans hpc, hactive⟩
  have hloop := h.loop
  have hinternal := h.guard
  generalize r'.loop = l at hloop
  cases x with
  | loop y =>
    have hy : Reactor.Internal y := hinternal.2.2
    replace hloop : EventLoop.Step r.loop y (.ok l) := hloop
    cases hloop with
    | handleRead hpc' =>
      cases hpc.symm.trans hpc'
      exact ⟨_, _, rfl, (List.mem_cons.mp hactive).resolve_left nofun⟩
    | @handleEvent c active' hpc' =>
      cases hpc.symm.trans hpc'
      cases c with
      | timerfdChannel => exact hy.elim
      | user c => exact ⟨_, _, rfl, (List.mem_cons.mp hactive).resolve_left (by simp)⟩
    | finishEvent hpc' =>
      cases hpc.symm.trans hpc'
      exact ⟨_, _, rfl, hactive⟩
    | doPendingFunctors hpc' =>
      cases hpc.symm.trans hpc'
      cases hactive
    | test hpc' | poll hpc' | swap hpc' | finishFunctor hpc' | finishFunctors hpc'
    | runFunctor hpc' => cases hpc.symm.trans hpc'
    | queueInLoop | quit | wakeup => exact hy.elim
  | runFunctor f clock =>
    replace hloop : EventLoop.Step r.loop (.runFunctor f) (.ok l) := hloop
    cases hloop with
    | runFunctor hpc' => cases hpc.symm.trans hpc'
  | handleRead now => exact absurd rfl (hx now)
  | runTimer | reset =>
    replace hloop : l = r.loop := hloop
    exact ⟨current, active, by rw [hloop, hpc], hactive⟩
  | _ => exact absurd trivial hcalling

omit [DecidableEq T] in
theorem of_timerLabel_handleRead {x : Reactor.Action T F C} {now : Timestamp}
    (h : x.timerLabel = some (.handleRead now)) : x = .handleRead now := by
  cases x with
  | handleRead => cases h; rfl
  | publish t | cancel t => cases t <;> cases h
  | runFunctor f => cases f <;> cases h
  | _ => cases h

/-- **Step lemma.** -/
theorem Awaits.step {x : Reactor.Action T F C} (hawaits : Awaits r a time)
    (h : Reactor.Effect r x r') (inv : Reactor.Invariant r)
    (hclock : ∀ now, x = .handleRead now → time ≤ now) :
    Awaits r' a time ∨ x = .runTimer a ∨ x = .cancel .loop ⟨a.timer, a.sequence⟩ := by
  cases hawaits with
  | due hpc hactive hidle hdue =>
    rcases h.timers_cases inv with ⟨hx, heq⟩ | ⟨y, hx, heff⟩
    · obtain ⟨_, _, hpc', hactive'⟩ :=
        pc_of_effect h inv (by rintro now rfl; cases hx) hpc hactive
      exact .inl (.due hpc' hactive' (heq ▸ hidle) (heq ▸ hdue))
    · rcases heff.due inv.timers hidle hdue (by
        rintro now rfl
        exact hclock now (of_timerLabel_handleRead hx)) with ⟨hidle', hdue'⟩ | hpending | rfl
      · have hread : ∀ now, x ≠ .handleRead now := by
          rintro now rfl
          cases hx
          generalize r'.timers = timers at heff hidle'
          cases heff with
          | handleRead => cases hidle'
        obtain ⟨_, _, hpc', hactive'⟩ := pc_of_effect h inv hread hpc hactive
        exact .inl (.due hpc' hactive' hidle' hdue')
      · exact .inl (.pending hpending)
      · -- no functor is run while the channels are handled
        cases x with
        | cancel t id => cases t <;> cases hx; exact .inr (.inr rfl)
        | runFunctor f clock =>
          have hloop : EventLoop.Step r.loop (.runFunctor f) (.ok r'.loop) := h.loop
          generalize r'.loop = l at hloop
          cases hloop with
          | runFunctor hpc' => cases hpc.symm.trans hpc'
        | publish t => cases t <;> cases hx
        | _ => cases hx
  | pending hpending =>
    rcases h.timers_cases inv with ⟨-, heq⟩ | ⟨y, hx, heff⟩
    · exact .inl (.pending (heq ▸ hpending))
    · rcases heff.pending inv.timers hpending with hpending' | rfl
      · exact .inl (.pending hpending')
      · cases x with
        | runTimer b => cases hx; exact .inr (.inl rfl)
        | publish t | cancel t => cases t <;> cases hx
        | runFunctor f => cases f <;> cases hx
        | _ => cases hx

omit [DecidableEq T] in
/-- At its test the loop awaits nothing. -/
theorem Awaits.not_testing (inv : Reactor.Invariant r) (h : Awaits r a time) :
    r.loop.pc ≠ .testing := by
  intro hpc
  cases h with
  | due hpc' => cases hpc.symm.trans hpc'
  | pending hpending =>
    obtain ⟨it, hit, -⟩ := hpending
    rw [inv.idle fun active hpc' => by cases hpc.symm.trans hpc'] at hit
    cases hit

/-- **Run lemma**: until the next `poll` the timer stays awaited, is run, or is cancelled. -/
theorem Awaits.of_run {w : List (Action T F C)} (hs : (machine T F C).Reachable s)
    (h : (machine T F C).Run s w u) (hpoll : ∀ p, .poll p ∉ w)
    (hawaits : Awaits s.reactor a time) (htime : time ≤ s.watch.time) :
    Awaits u.reactor a time ∧ time ≤ u.watch.time ∨ .step (.runTimer a) ∈ w ∨
      .step (.cancel .loop ⟨a.timer, a.sequence⟩) ∈ w := by
  induction h with
  | nil => exact .inl ⟨hawaits, htime⟩
  | @snoc w v v' x hrun hstep ih =>
    have inv := reachable_invariant (hs.run hrun)
    rcases ih fun p hmem => hpoll p (List.mem_append_left _ hmem) with ⟨hv, hle⟩ | hdone
    · rcases Step.cases inv hstep with ⟨p, r, rfl, -⟩ |
        ⟨x, start, r, rfl, rfl, heff, hclock, hstart⟩
      · exact absurd (List.mem_append_right _ (List.mem_singleton_self _)) (hpoll p)
      · have hread : ∀ now, x = .handleRead now → time ≤ now := by
          rintro now rfl
          exact hle.trans (hclock now rfl)
        have htime' : time ≤ (after v.watch v.reactor x start r).time := by
          rw [after]
          rw [reads] at hclock
          rw [resets] at hstart
          cases hx : x.timerLabel with
          | none => exact hle
          | some y =>
            rw [hx] at hclock hstart
            exact hle.trans (TimerQueue.Watch.time_le_after hclock hstart _)
        rcases hv.step heff inv.reactor hread with hr | rfl | rfl
        · exact .inl ⟨hr, htime'⟩
        · exact .inr (.inl (List.mem_append_right _ (List.mem_singleton_self _)))
        · exact .inr (.inr (List.mem_append_right _ (List.mem_singleton_self _)))
    · exact .inr (hdone.imp (List.mem_append_left _) (List.mem_append_left _))

/-- **Timers fire in time.** Let any threads add and cancel timers and queue functors, while the
loop runs, and let a timer be queued while the loop is in `poll`. The kernel makes the timerfd
readable when the timer expires, or 100 microseconds after the time that the loop thread has
come to if that is later, but for the lag between the last reading of the clock for
`timerfd_settime` and its call. If a complete `poll` collects its events after that, and after
the expiration, the callback of the timer is run before the loop comes to its next test, unless
a callback that is run before it cancels the timer. -/
theorem due_timers_fire (hs : (machine T F C).Reachable s)
    (hpc : s.reactor.loop.pc = .polling) {t : Timer}
    (ha : a ∈ s.reactor.timers.queue.activeTimers)
    (ht : s.reactor.timers.queue.mem.timerAt a.timer = some t) :
    ∃ armed, s.watch.timerfd = some armed ∧
      armed.reading ≤ armed.start ∧ armed.start ≤ s.watch.time ∧
      armed.readable.microSecondsSinceEpoch ≤ max t.expiration.microSecondsSinceEpoch
        (s.watch.time.microSecondsSinceEpoch + 100) + armed.lag ∧
      ∀ p w u, (machine T F C).Run s (.poll p :: w) u → (∀ p', .poll p' ∉ w) →
        u.reactor.loop.pc = .testing → p.complete = true → armed.readable ≤ p.collected →
        t.expiration ≤ p.collected →
        .step (.runTimer a) ∈ w ∨ .step (.cancel .loop ⟨a.timer, a.sequence⟩) ∈ w := by
  have inv := reachable_invariant hs
  have hidle : s.reactor.timers.phase = .idle :=
    inv.reactor.idle fun active hpc' => by cases hpc.symm.trans hpc'
  have hseq := inv.reactor.timers.consistent.sequence_eq ht ha
  have hentry : (⟨t.expiration, a.timer⟩ : Entry) ∈ s.reactor.timers.queue.timers :=
    inv.reactor.timers.consistent.queued ht (hseq ▸ ha)
  obtain ⟨armed, htimerfd, hreading, hstart, hle⟩ := inv.punctual.readable hidle hentry
  refine ⟨armed, htimerfd, hreading, hstart, hle,
    fun p w u hrun hpoll htesting hcomplete hreadable hexpired => ?_⟩
  obtain ⟨m, hstep, hw⟩ := hrun.head
  have hm := hs.step hstep
  rcases Step.cases inv hstep with ⟨_, r, heq, rfl, heff, hclock, hkernel⟩ | ⟨x, start, r, heq, -⟩
  · cases heq
    have htimers : r.timers = s.reactor.timers := heff.timers
    have hactive := hkernel hcomplete armed htimerfd hreadable
    have hpolled : r.loop.pc = .handling none p.activeChannels := by
      have hloop : EventLoop.Step s.reactor.loop (.poll p.activeChannels) (.ok r.loop) := heff.loop
      generalize r.loop = l at hloop
      cases hloop
      rfl
    have hawaits : Awaits r a p.collected :=
      .due hpolled hactive (htimers ▸ hidle) (htimers ▸ ⟨ha, t, ht, hexpired⟩)
    rcases Awaits.of_run hm hw hpoll hawaits hclock.2 with ⟨hu, -⟩ | hdone
    · exact absurd htesting (hu.not_testing (reachable_invariant (hm.run hw)).reactor)
    · exact hdone
  · cases heq

section Next

instance decidablePolling : (pc : EventLoop.Pc F C) → Decidable (pc = .polling)
  | .polling => isTrue rfl
  | .testing | .handling .. | .swapping | .running .. | .exited => isFalse (by simp)

instance decidableTesting : (pc : EventLoop.Pc F C) → Decidable (pc = .testing)
  | .testing => isTrue rfl
  | .polling | .handling .. | .swapping | .running .. | .exited => isFalse (by simp)

variable [DecidableEq F] [DecidableEq C]

/-- The successor of a state, where the step is possible and does not fault. -/
def next (s : TimedReactor T F C) : Action T F C → Option (TimedReactor T F C)
  | .poll p =>
    if (s.watch.time ≤ p.collected ∧ p.collected ≤ p.pollReturnTime_) ∧
        (p.complete = true → ∀ armed ∈ s.watch.timerfd, armed.readable ≤ p.collected →
          .channel .timerfdChannel ∈ p.activeChannels) then
      (Reactor.next s.reactor (.loop (.poll p.activeChannels))).map
        fun r => ⟨r, { s.watch with time := p.pollReturnTime_ }⟩
    else none
  | .step (.loop (.poll _)) => none
  | .step x =>
    if ∀ c ∈ reads s.reactor x, s.watch.time ≤ c then
      (Reactor.next s.reactor x).bind fun r =>
        if Fits s.reactor x r then
          some ⟨r, after s.watch s.reactor x ((resets s.reactor x).getD s.watch.time) r⟩
        else none
    else none

theorem step_of_next {a : Action T F C} (h : next s a = some s') : Step s a (.ok s') := by
  unfold next at h
  split at h
  · obtain ⟨⟨hclock, hkernel⟩, hr⟩ := Option.ite_none_right_eq_some.mp h
    obtain ⟨r, hnext, rfl⟩ := Option.map_eq_some_iff.mp hr
    exact .poll (Reactor.step_of_next hnext) hclock hkernel
  · cases h
  · next x hx =>
    obtain ⟨hclock, hr⟩ := Option.ite_none_right_eq_some.mp h
    obtain ⟨r, hnext, hsome⟩ := Option.bind_eq_some_iff.mp hr
    obtain ⟨hfits, heq⟩ := Option.ite_none_right_eq_some.mp hsome
    cases heq
    refine .step (r := .ok r) hx (Reactor.step_of_next hnext) hclock (fun c hc => ?_) fun _ hr => ?_
    · rw [Option.mem_def.mp hc]
      exact le_rfl
    · cases hr
      exact hfits

end Next

/-- A thread adds a timer, whose time comes while the loop polls. -/
theorem due_timers_fire_from_other : ∃ s w u, (machine Unit Unit Unit).Reachable s ∧
    (machine Unit Unit Unit).Run s (.poll ⟨[.channel .timerfdChannel], ⟨160⟩, true, ⟨161⟩⟩ :: w) u ∧
    .step (.runTimer ⟨8, 1⟩) ∈ w := by
  let start : TimedReactor Unit Unit Unit := ⟨.fresh Unit Unit Unit, ⟨1⟩, none⟩
  let w : List (Action Unit Unit Unit) := [.step (.handleRead ⟨162⟩), .step (.runTimer ⟨8, 1⟩),
    .step (.reset ⟨163⟩), .step (.loop .finishEvent), .step (.loop .doPendingFunctors),
    .step (.loop .swap), .step (.loop .finishFunctors)]
  have hinit : (machine Unit Unit Unit).init start :=
    ⟨Reactor.fresh_init .., .of_init ⟨⟨_, rfl⟩, by decide, rfl⟩⟩
  obtain ⟨s, hs, hP⟩ := Option.any_eq_true .. |>.mp (show
    (([.step (.newTimer (.other ()) 8 ⟨100⟩ .zero), .step (.publish (.other ()) ⟨8, 1⟩ ⟨50⟩),
      .step (.wakeup (.other ())), .step (.readSequence (.other ()) ⟨8, 1⟩ ⟨8, 1⟩),
      .step (.loop .test), .poll ⟨[], ⟨40⟩, true, ⟨41⟩⟩, .step (.loop .doPendingFunctors),
      .step (.loop .swap), .step (.runFunctor (.addTimerInLoop ⟨8, 1⟩) ⟨50⟩),
      .step (.loop .finishFunctor), .step (.loop .finishFunctors),
      .step (.loop .test)].foldlM next start).any fun s =>
      s.reactor.loop.pc = .polling &&
      (⟨8, 1⟩ : ActiveTimer) ∈ s.reactor.timers.queue.activeTimers &&
      (s.reactor.timers.queue.mem.timerAt 8).any (fun t => t.expiration ≤ ⟨160⟩) &&
      s.watch.timerfd.any (fun armed => armed.readable ≤ ⟨160⟩) &&
      ((.poll ⟨[.channel .timerfdChannel], ⟨160⟩, true, ⟨161⟩⟩ :: w).foldlM next s).any fun u =>
        u.reactor.loop.pc = .testing) = true by decide)
  simp only [Bool.and_eq_true, decide_eq_true_eq] at hP
  obtain ⟨⟨⟨⟨hpc, ha⟩, htimer⟩, hwatch⟩, hrun⟩ := hP
  obtain ⟨t, ht, hdue⟩ := Option.any_eq_true .. |>.mp htimer
  obtain ⟨armed, harmed, hreadable⟩ := Option.any_eq_true .. |>.mp hwatch
  obtain ⟨u, hu, htesting⟩ := Option.any_eq_true .. |>.mp hrun
  have hreach : (machine Unit Unit Unit).Reachable s :=
    ⟨start, _, hinit, .of_foldlM step_of_next hs⟩
  have hw : (machine Unit Unit Unit).Run s
      (.poll ⟨[.channel .timerfdChannel], ⟨160⟩, true, ⟨161⟩⟩ :: w) u := .of_foldlM step_of_next hu
  obtain ⟨armed', htimerfd, -, -, -, hfires⟩ := due_timers_fire hreach hpc ha ht
  cases harmed.symm.trans htimerfd
  have hdone := hfires _ w u hw (by simp [w]) (of_decide_eq_true htesting) rfl
    (of_decide_eq_true hreadable) (of_decide_eq_true hdue)
  exact ⟨s, w, u, hreach, hw, hdone.resolve_right (by simp [w])⟩

end TimedReactor

end Dxian
