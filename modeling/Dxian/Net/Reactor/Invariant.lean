import Dxian.Net.Reactor.Defs
import Dxian.Net.TimerQueue.Ownership

/-!
# A reactor is its loop and its timer queue in lockstep

Every step of a `Reactor` is at most one step of its event loop and at most one
step of its timer queue. The second needs an invariant: `addTimerInLoop` is
only ever called with a Timer that is alive and has not been handed over before,
because such a Timer belongs either to a thread inside `addTimer` or to one
functor in the queue.

## Main results

- `Step.effect` — what a step does, under the invariant
- `reachable_invariant` — the invariant holds in every run
- `loopProjection`, `timerProjection` — runs of a reactor are runs of its parts
-/

namespace Dxian

open Transition

/-- The Timer that a functor of `addTimer` is bound to. -/
def LoopFunctor.added? {F : Type*} : LoopFunctor F → Option ActiveTimer
  | addTimerInLoop a => some a
  | _ => none

def Adding.publish : Adding → Adding
  | allocated a when interval => published a when interval
  | x => x

namespace Reactor

variable {T F C : Type*}

/-! ## The two labels of a step -/

/-- The step of the event loop. -/
def Action.loopLabel : Action T F C → Option (EventLoop.Action T (LoopFunctor F) (LoopChannel C))
  | publish (.other t) a _ => some (.queueInLoop (.other t) (.addTimerInLoop a))
  | cancel (.other t) id => some (.queueInLoop (.other t) (.cancelInLoop id))
  | queueInLoop t f => some (.queueInLoop t (.user f))
  | quit t => some (.quit t)
  | wakeup t => some (.wakeup t)
  | loop x => some x
  | runFunctor f _ => some (.runFunctor f)
  | handleRead _ => some (.handleEvent .timerfdChannel)
  | _ => none

/-- The step of the timer queue. -/
def Action.timerLabel : Action T F C → Option TimerQueue.Action
  | newTimer _ p when interval => some (.newTimer p when interval)
  | publish .loop a clock => some (.addTimerInLoop a clock)
  | cancel .loop id => some (.cancelInLoop id)
  | runFunctor (.addTimerInLoop a) clock => some (.addTimerInLoop a clock)
  | runFunctor (.cancelInLoop id) _ => some (.cancelInLoop id)
  | handleRead now => some (.handleRead now)
  | runTimer a => some (.run a)
  | reset clock => some (.reset clock)
  | _ => none

/-- The calls in progress after a step. -/
def Action.addingAfter [DecidableEq T] (s : Reactor T F C) : Action T F C → Thread T → Adding
  | newTimer t p when interval => Function.update s.adding t
      (.allocated ⟨p, s.timers.queue.mem.numCreated + 1⟩ when interval)
  | publish t _ _ => Function.update s.adding t (s.adding t).publish
  | readSequence t _ _ => Function.update s.adding t .idle
  | _ => s.adding

/-- The calls that have returned after a step. -/
def Action.returnedAfter (s : Reactor T F C) : Action T F C → List (ActiveTimer × TimerId)
  | readSequence _ a id => (a, id) :: s.returned
  | _ => s.returned

/-- When a step is possible, beyond what its two parts ask for. -/
def Action.Guard (s : Reactor T F C) : Action T F C → Prop
  | newTimer t _ _ _ | queueInLoop t _ | quit t => s.Ready t
  | cancel t id => s.Ready t ∧ (id = .default ∨ ∃ a, (a, id) ∈ s.returned)
  | publish t a _ => ∃ when interval, s.adding t = .allocated a when interval
  | readSequence t a id => s.loop.calling t = .returned ∧
      (∃ when interval, s.adding t = .published a when interval) ∧
      ∃ u, s.timers.queue.mem.timerAt a.timer = some u ∧ id = ⟨a.timer, u.sequence⟩
  | wakeup _ => True
  | loop x => s.LoopReady ∧ s.timers.phase = .idle ∧ Internal x
  | runFunctor .. | handleRead _ | runTimer _ | reset _ => s.LoopReady

/-- What a step does: its guard, its two parts and the calls of `addTimer`. -/
structure Effect [DecidableEq T] (s : Reactor T F C) (x : Action T F C) (s' : Reactor T F C) :
    Prop where
  guard : x.Guard s
  loop : match x.loopLabel with
    | some y => EventLoop.Step s.loop y (.ok s'.loop)
    | none => s'.loop = s.loop
  timers : match x.timerLabel with
    | some y => TimerQueue.Step s.timers y (.ok s'.timers)
    | none => s'.timers = s.timers
  adding : s'.adding = x.addingAfter s
  returned : s'.returned = x.returnedAfter s

/-! ## The invariant -/

/-- The Timers of the `addTimerInLoop` functors in the queue. -/
def adds (s : Reactor T F C) : List ActiveTimer :=
  s.loop.outstanding.filterMap LoopFunctor.added?

theorem mem_adds {s : Reactor T F C} {a : ActiveTimer} :
    a ∈ s.adds ↔ .addTimerInLoop a ∈ s.loop.outstanding := by
  rw [adds, List.mem_filterMap]
  constructor
  · intro ⟨f, hf, hfa⟩
    cases f with
    | addTimerInLoop b => cases hfa; exact hf
    | _ => cases hfa
  · intro h
    exact ⟨_, h, rfl⟩

/-- `a` is allocated and on its way to the timer queue. -/
def OnItsWay (s : Reactor T F C) (a : ActiveTimer) : Prop :=
  a ∈ s.adds ∨ ∃ t when interval, s.adding t = .allocated a when interval

/-- The invariant of a reactor. -/
structure Invariant (s : Reactor T F C) : Prop where
  timers : TimerQueue.Invariant s.timers
  phase : s.timers.phase = .idle ∨
    ∃ active, s.loop.pc = .handling (some .timerfdChannel) active
  callback : s.adding .loop ≠ .idle → s.InCallback
  onItsWay : ∀ a, s.OnItsWay a → a ∉ s.timers.handed ∧
    ∃ u, s.timers.queue.mem.timerAt a.timer = some u ∧ u.sequence = a.sequence
  adds_nodup : s.adds.Nodup
  allocated_notMem : ∀ t a when interval, s.adding t = .allocated a when interval → a ∉ s.adds
  allocated_inj : ∀ t t' a when interval when' interval',
    s.adding t = .allocated a when interval → s.adding t' = .allocated a when' interval' → t = t'
  published : ∀ t a when interval, s.adding t = .published a when interval →
    a ∈ s.timers.handed ∨ a ∈ s.adds
  returned : ∀ a id, (a, id) ∈ s.returned → s.timers.Deleted a ∨
    id.toActive = a ∧ (a ∈ s.timers.handed ∨ a ∈ s.adds)

/-- A callback is outside the queue, or was started by it. -/
theorem Invariant.outside {s : Reactor T F C} (inv : Invariant s) (h : s.InCallback) :
    s.timers.phase.Outside := by
  rcases inv.phase with hidle | ⟨active, hpc⟩
  · rw [hidle]
    trivial
  · rw [InCallback, hpc] at h
    cases hφ : s.timers.phase with
    | idle => trivial
    | calling now done rest => rwa [hφ] at h

/-- Outside the event of the timerfd no batch is in progress. -/
theorem Invariant.idle {s : Reactor T F C} (inv : Invariant s)
    (h : ∀ active, s.loop.pc ≠ .handling (some .timerfdChannel) active) :
    s.timers.phase = .idle := by
  rcases inv.phase with hidle | ⟨active, hpc⟩
  · exact hidle
  · exact absurd hpc (h active)

/-- A Timer that is on its way or has arrived is deleted, or alive with its number. -/
theorem Invariant.live_or_deleted {s : Reactor T F C} (inv : Invariant s) {a : ActiveTimer}
    (ha : a ∈ s.timers.handed ∨ a ∈ s.adds) : s.timers.Deleted a ∨
      ∃ u, s.timers.queue.mem.timerAt a.timer = some u ∧ u.sequence = a.sequence := by
  rcases ha with ha | ha
  · rcases inv.timers.placed a ha with hq | ⟨it, -, u, hu, rfl⟩ | hdel
    · exact .inr (inv.timers.consistent.active_live a.timer a.sequence hq.1)
    · exact .inr ⟨u, hu, rfl⟩
    · exact .inl hdel
  · exact .inr (inv.onItsWay a (.inl ha)).2

/-! ## Steps do not fault, but for the read of the sequence number -/

/-- `addTimerInLoop` on a Timer that is on its way. -/
theorem Invariant.exec_add {s : Reactor T F C} (inv : Invariant s) {a : ActiveTimer}
    (ha : s.OnItsWay a) (hout : s.timers.phase.Outside) (clock : Timestamp) :
    ∃ x, TimerQueue.Step s.timers (.addTimerInLoop a clock) (.ok x) ∧
      s.exec (.addTimerInLoop a) clock = .ok { s with timers := x } := by
  obtain ⟨hfresh, u, hu, hseq⟩ := inv.onItsWay a ha
  obtain ⟨p, n⟩ := a
  simp only at hu hseq
  subst hseq
  obtain ⟨x, hx, -⟩ := TimerQueue.Step.effect inv.timers
    (.addTimerInLoop hout hu hfresh (Eq.refl ((s.timers.queue.addTimerInLoop p clock).map _)))
  refine ⟨x, .addTimerInLoop hout hu hfresh hx, ?_⟩
  obtain ⟨q, hq, rfl⟩ := exists_of_map_eq_ok hx
  simp [exec, hq, Except.map]

/-- `cancelInLoop` with any id. -/
theorem Invariant.exec_cancel {s : Reactor T F C} (inv : Invariant s) (id : TimerId)
    (hout : s.timers.phase.Outside) (clock : Timestamp) :
    ∃ x, TimerQueue.Step s.timers (.cancelInLoop id) (.ok x) ∧
      s.exec (.cancelInLoop id) clock = .ok { s with timers := x } := by
  obtain ⟨x, hx, -⟩ := TimerQueue.Step.effect inv.timers
    (.cancelInLoop hout (Eq.refl ((s.timers.queue.cancelInLoop id).map _)))
  refine ⟨x, .cancelInLoop hout hx, ?_⟩
  obtain ⟨q, hq, rfl⟩ := exists_of_map_eq_ok hx
  simp [exec, hq, Except.map]

/-- A functor of the reactor itself concerns the timers only. -/
theorem exec_withLoop (s : Reactor T F C) (l : EventLoop T (LoopFunctor F) (LoopChannel C))
    (f : LoopFunctor F) (clock : Timestamp) :
    ({ s with loop := l } : Reactor T F C).exec f clock =
      (s.exec f clock).map fun u => { u with loop := l } := by
  cases f with
  | addTimerInLoop a =>
    cases h : s.timers.queue.addTimerInLoop a.timer clock <;> simp [exec, h, Except.map]
  | cancelInLoop id =>
    cases h : s.timers.queue.cancelInLoop id <;> simp [exec, h, Except.map]
  | user f => rfl

variable [DecidableEq T]

/-- `runInLoop` on the loop thread runs the functor, elsewhere it queues it. -/
theorem runInLoop_loop (s : Reactor T F C) (cb : LoopFunctor F) (clock : Timestamp) :
    s.runInLoop .loop cb clock = s.exec cb clock := rfl

theorem runInLoop_other (s : Reactor T F C) (t : T) (cb : LoopFunctor F) (clock : Timestamp) :
    s.runInLoop (.other t) cb clock =
      .ok { s with loop := s.loop.queueInLoop (.other t) cb } := rfl

/-- **What a step does.** Under the invariant the only step that can fault is the
read of a sequence number. -/
theorem Step.effect {s : Reactor T F C} {x : Action T F C} {r : Except Fault (Reactor T F C)}
    (inv : Invariant s) (h : Step s x r) :
    (∃ s', r = .ok s' ∧ Effect s x s') ∨
      r = .error .useAfterFree ∧ ∃ t a id, x = .readSequence t a id := by
  have howner : ∀ {t : T}, Thread.other t = .loop → s.loop.pc.InCallback := by simp
  cases h with
  | newTimer hready h =>
    exact .inl ⟨_, rfl, ⟨hready, rfl, .newTimer h, rfl, rfl⟩⟩
  | @publish t a when interval clock _ hadd hcall hr =>
    have hpublish : (s.adding t).publish = .published a when interval := by rw [hadd]; rfl
    cases t with
    | loop =>
      obtain ⟨y, hy, hexec⟩ := inv.exec_add (.inr ⟨.loop, when, interval, hadd⟩)
        (inv.outside (inv.callback (by rw [hadd]; simp))) clock
      rw [runInLoop_loop, hexec] at hr
      refine .inl ⟨_, hr.symm, ⟨⟨when, interval, hadd⟩, rfl, hy, ?_, rfl⟩⟩
      simp only [Action.addingAfter, hpublish]
    | other t =>
      rw [runInLoop_other] at hr
      refine .inl ⟨_, hr.symm, ⟨⟨when, interval, hadd⟩, .queueInLoop hcall howner, rfl, ?_, rfl⟩⟩
      simp only [Action.addingAfter, hpublish]
  | @readSequence t a when interval id _ hadd hcall hid hr =>
    cases hu : s.timers.queue.mem.timerAt a.timer with
    | none =>
      refine .inr ⟨?_, t, a, id, rfl⟩
      rw [← hr]
      simp [Memory.deref, hu, Except.map]
    | some u =>
      rw [Memory.deref_of_live hu] at hr
      have hid' := hid u (Memory.deref_of_live hu)
      exact .inl ⟨_, hr.symm, ⟨⟨hcall, ⟨when, interval, hadd⟩, u, hu, hid'⟩, rfl, rfl, rfl, rfl⟩⟩
  | @cancel t id _ hready hid hr =>
    cases t with
    | loop =>
      obtain ⟨y, hy, hexec⟩ := inv.exec_cancel id (inv.outside (hready.2.2 rfl)) .invalid
      rw [runInLoop_loop, hexec] at hr
      exact .inl ⟨_, hr.symm, ⟨⟨hready, hid⟩, rfl, hy, rfl, rfl⟩⟩
    | other t =>
      rw [runInLoop_other] at hr
      exact .inl ⟨_, hr.symm, ⟨⟨hready, hid⟩, .queueInLoop hready.2.1 howner, rfl, rfl, rfl⟩⟩
  | queueInLoop hready =>
    exact .inl ⟨_, rfl, ⟨hready, .queueInLoop hready.2.1 fun ht => (hready.2.2 ht).loop,
      rfl, rfl, rfl⟩⟩
  | quit hready =>
    exact .inl ⟨_, rfl, ⟨hready, .quit hready.2.1 fun ht => (hready.2.2 ht).loop, rfl, rfl, rfl⟩⟩
  | wakeup hcall => exact .inl ⟨_, rfl, ⟨trivial, .wakeup hcall, rfl, rfl, rfl⟩⟩
  | loop hready hidle hx h => exact .inl ⟨_, rfl, ⟨⟨hready, hidle, hx⟩, h, rfl, rfl, rfl⟩⟩
  | @runFunctor f functors clock _ hready hpc hr =>
    have hidle : s.timers.phase = .idle := inv.idle fun active => by rw [hpc]; simp
    have hout : s.timers.phase.Outside := by rw [hidle]; trivial
    cases f with
    | addTimerInLoop a =>
      have hway : s.OnItsWay a := .inl (by simp [adds, EventLoop.outstanding, hpc,
        EventLoop.Pc.rest, LoopFunctor.added?])
      obtain ⟨y, hy, hexec⟩ := inv.exec_add hway hout clock
      rw [exec_withLoop, hexec] at hr
      exact .inl ⟨_, hr.symm, ⟨hready, .runFunctor hpc, hy, rfl, rfl⟩⟩
    | cancelInLoop id =>
      obtain ⟨y, hy, hexec⟩ := inv.exec_cancel id hout clock
      rw [exec_withLoop, hexec] at hr
      exact .inl ⟨_, hr.symm, ⟨hready, .runFunctor hpc, hy, rfl, rfl⟩⟩
    | user f =>
      exact .inl ⟨_, hr.symm, ⟨hready, .runFunctor hpc, rfl, rfl, rfl⟩⟩
  | @handleRead now active _ hready hpc h =>
    obtain ⟨y, rfl, -⟩ := TimerQueue.Step.effect inv.timers h
    exact .inl ⟨_, rfl, ⟨hready, .handleEvent hpc, h, rfl, rfl⟩⟩
  | runTimer hready h =>
    obtain ⟨y, rfl, -⟩ := TimerQueue.Step.effect inv.timers h
    exact .inl ⟨_, rfl, ⟨hready, rfl, h, rfl, rfl⟩⟩
  | reset hready h =>
    obtain ⟨y, rfl, -⟩ := TimerQueue.Step.effect inv.timers h
    exact .inl ⟨_, rfl, ⟨hready, rfl, h, rfl, rfl⟩⟩

/-! ## The invariant is kept -/

/-- The functors that a step queues. -/
def Action.pushed (x : Action T F C) : List (LoopFunctor F) :=
  x.loopLabel.elim [] EventLoop.Action.pushed

/-- The functors that a step starts. -/
def Action.ran (x : Action T F C) : List (LoopFunctor F) :=
  x.loopLabel.elim [] EventLoop.Action.ran

/-- The functors of `addTimer` that a step queues. -/
def Action.queuedAdds : Action T F C → List ActiveTimer
  | publish (.other _) a _ => [a]
  | _ => []

/-- The functors of `addTimer` that a step takes out of the queue. -/
def Action.ranAdds : Action T F C → List ActiveTimer
  | runFunctor (.addTimerInLoop a) _ => [a]
  | _ => []

/-- The Timers that a step hands to the timer queue. -/
def Action.handedOver (x : Action T F C) : List ActiveTimer :=
  x.timerLabel.elim [] TimerQueue.Action.handedOver

omit [DecidableEq T] in
theorem Internal.pushed {x : EventLoop.Action T (LoopFunctor F) (LoopChannel C)} (h : Internal x) :
    x.pushed = [] ∧ x.ran = [] := by
  cases x with
  | queueInLoop | runFunctor => exact h.elim
  | _ => exact ⟨rfl, rfl⟩

section Step

variable {s s' : Reactor T F C} {x : Action T F C}

/-- The functors stay in order. -/
theorem Effect.outstanding_eq (h : Effect s x s') :
    s.loop.outstanding ++ x.pushed = x.ran ++ s'.loop.outstanding := by
  have hloop := h.loop
  rw [Action.pushed, Action.ran]
  cases hx : x.loopLabel with
  | none =>
    rw [hx] at hloop
    rw [hloop, Option.elim, Option.elim, List.append_nil, List.nil_append]
  | some y => rw [hx] at hloop; exact hloop.conserves

/-- The functors of `addTimer` among those that a step puts in and takes out. -/
theorem Effect.added_eq (h : Effect s x s') :
    x.pushed.filterMap LoopFunctor.added? = x.queuedAdds ∧
      x.ran.filterMap LoopFunctor.added? = x.ranAdds := by
  cases x with
  | publish t a clock => cases t <;> exact ⟨rfl, rfl⟩
  | cancel t id => cases t <;> exact ⟨rfl, rfl⟩
  | loop y =>
    obtain ⟨hpushed, hran⟩ := Internal.pushed h.guard.2.2
    have hpushed' : (Action.loop y : Action T F C).pushed = [] := hpushed
    have hran' : (Action.loop y : Action T F C).ran = [] := hran
    rw [hpushed', hran']
    exact ⟨rfl, rfl⟩
  | runFunctor f clock => cases f <;> exact ⟨rfl, rfl⟩
  | queueInLoop | quit | wakeup | handleRead => exact ⟨rfl, rfl⟩
  | newTimer | readSequence | runTimer | reset => exact ⟨rfl, rfl⟩

/-- The functors of `addTimer` stay in order. -/
theorem Effect.adds_eq (h : Effect s x s') : s.adds ++ x.queuedAdds = x.ranAdds ++ s'.adds := by
  have hfifo := congrArg (List.filterMap LoopFunctor.added?) h.outstanding_eq
  rw [List.filterMap_append, List.filterMap_append, h.added_eq.1, h.added_eq.2] at hfifo
  exact hfifo

/-- The timer queue stands still or takes a step. -/
theorem Effect.timers_cases (h : Effect s x s') (inv : Invariant s) :
    x.timerLabel = none ∧ s'.timers = s.timers ∨
      ∃ y, x.timerLabel = some y ∧ TimerQueue.Effect s.timers y s'.timers := by
  have htimers := h.timers
  cases hx : x.timerLabel with
  | none => rw [hx] at htimers; exact .inl ⟨rfl, htimers⟩
  | some y =>
    rw [hx] at htimers
    exact .inr ⟨y, rfl, TimerQueue.Step.effect_of_ok inv.timers htimers⟩

theorem Effect.handed_eq (h : Effect s x s') (inv : Invariant s) :
    s'.timers.handed = x.handedOver ++ s.timers.handed := by
  rw [Action.handedOver]
  rcases h.timers_cases inv with ⟨hx, heq⟩ | ⟨y, hx, heff⟩
  · rw [hx, heq]
    rfl
  · rw [hx, heff.handed_eq]
    rfl

theorem Effect.deleted_mono (h : Effect s x s') (inv : Invariant s) {a : ActiveTimer}
    (ha : s.timers.Deleted a) : s'.timers.Deleted a := by
  rcases h.timers_cases inv with ⟨-, heq⟩ | ⟨y, -, heff⟩
  · rwa [heq]
  · exact heff.deleted_mono ha

/-- A functor of `addTimer` hands its Timer over when it is run. -/
theorem Effect.arrives (h : Effect s x s') (inv : Invariant s) {a : ActiveTimer}
    (ha : a ∈ s.timers.handed ∨ a ∈ s.adds) : a ∈ s'.timers.handed ∨ a ∈ s'.adds := by
  rw [h.handed_eq inv, List.mem_append]
  rcases ha with ha | ha
  · exact .inl (.inr ha)
  · have hmem : a ∈ x.ranAdds ++ s'.adds := by
      rw [← h.adds_eq]
      exact List.mem_append_left _ ha
    rcases List.mem_append.mp hmem with hran | hadds
    · refine .inl (.inl ?_)
      cases x with
      | runFunctor f clock =>
        cases f with
        | addTimerInLoop b => exact hran
        | _ => cases hran
      | _ => cases hran
    · exact .inr hadds

omit [DecidableEq T] in
theorem Action.mem_handedOver {a : ActiveTimer} (h : a ∈ x.handedOver) :
    (∃ clock, x = .publish .loop a clock) ∨ ∃ clock, x = .runFunctor (.addTimerInLoop a) clock := by
  cases x with
  | publish t b clock =>
    cases t with
    | loop => exact .inl ⟨clock, by rw [List.mem_singleton.mp h]⟩
    | other t => cases h
  | runFunctor f clock =>
    cases f with
    | addTimerInLoop b => exact .inr ⟨clock, by rw [List.mem_singleton.mp h]⟩
    | _ => cases h
  | cancel t id => cases t <;> cases h
  | _ => cases h

omit [DecidableEq T] in
theorem Action.mem_queuedAdds {a : ActiveTimer} (h : a ∈ x.queuedAdds) :
    ∃ t clock, x = .publish (.other t) a clock := by
  cases x with
  | publish t b clock =>
    cases t with
    | loop => cases h
    | other t => exact ⟨t, clock, by rw [List.mem_singleton.mp h]⟩
  | _ => cases h

/-- What a step does to the call of `addTimer` of one thread. -/
theorem Action.addingAfter_cases (x : Action T F C) (s : Reactor T F C) (t : Thread T) :
    (x.addingAfter s t = s.adding t ∧ (∀ b clock, x ≠ .publish t b clock) ∧
      ∀ b id, x ≠ .readSequence t b id) ∨
    (∃ p when interval, x = .newTimer t p when interval ∧
      x.addingAfter s t = .allocated ⟨p, s.timers.queue.mem.numCreated + 1⟩ when interval) ∨
    (∃ b clock, x = .publish t b clock ∧ x.addingAfter s t = (s.adding t).publish) ∨
    ∃ b id, x = .readSequence t b id ∧ x.addingAfter s t = .idle := by
  cases x with
  | newTimer u p when interval =>
    by_cases ht : t = u
    · subst ht
      exact .inr (.inl ⟨p, when, interval, rfl, Function.update_self ..⟩)
    · exact .inl ⟨Function.update_of_ne ht .., by simp, by simp⟩
  | publish u b clock =>
    by_cases ht : t = u
    · subst ht
      exact .inr (.inr (.inl ⟨b, clock, rfl, Function.update_self ..⟩))
    · refine .inl ⟨Function.update_of_ne ht .., fun b' clock' heq => ht ?_, by simp⟩
      cases heq
      rfl
  | readSequence u b id =>
    by_cases ht : t = u
    · subst ht
      exact .inr (.inr (.inr ⟨b, id, rfl, Function.update_self ..⟩))
    · refine .inl ⟨Function.update_of_ne ht .., by simp, fun b' id' heq => ht ?_⟩
      cases heq
      rfl
  | _ => exact .inl ⟨rfl, by simp, by simp⟩

/-- Where a Timer in the state `allocated` comes from. -/
theorem Action.allocated_of {t : Thread T} {a : ActiveTimer} {when : Timestamp}
    {interval : Seconds} (h : x.addingAfter s t = .allocated a when interval) :
    s.adding t = .allocated a when interval ∧ (∀ b clock, x ≠ .publish t b clock) ∨
      x = .newTimer t a.timer when interval ∧
        a.sequence = s.timers.queue.mem.numCreated + 1 := by
  rcases x.addingAfter_cases s t with ⟨heq, hpublish, -⟩ | ⟨p, when', interval', hx, heq⟩ |
    ⟨b, clock, -, heq⟩ | ⟨b, id, -, heq⟩
  · exact .inl ⟨heq.symm.trans h, hpublish⟩
  · cases heq.symm.trans h
    exact .inr ⟨hx, rfl⟩
  · rw [heq] at h
    cases hs : s.adding t <;> rw [hs] at h <;> cases h
  · cases heq.symm.trans h

/-- Where a Timer in the state `published` comes from. -/
theorem Action.published_of {t : Thread T} {a : ActiveTimer} {when : Timestamp}
    {interval : Seconds} (h : x.addingAfter s t = .published a when interval) :
    s.adding t = .published a when interval ∨
      s.adding t = .allocated a when interval ∧ ∃ b clock, x = .publish t b clock := by
  rcases x.addingAfter_cases s t with ⟨heq, -⟩ | ⟨p, when', interval', -, heq⟩ |
    ⟨b, clock, hx, heq⟩ | ⟨b, id, -, heq⟩
  · exact .inl (heq.symm.trans h)
  · cases heq.symm.trans h
  · rw [heq] at h
    cases hs : s.adding t with
    | idle => rw [hs] at h; cases h
    | allocated => rw [hs] at h; cases h; exact .inr ⟨rfl, b, clock, hx⟩
    | published => rw [hs] at h; cases h; exact .inl rfl
  · cases heq.symm.trans h

/-- A Timer on its way was on its way before, or is new. -/
theorem Effect.onItsWay_of (h : Effect s x s') (inv : Invariant s) {a : ActiveTimer}
    (ha : s'.OnItsWay a) : s.OnItsWay a ∧ a ∉ x.handedOver ∨
      ∃ t when interval, x = .newTimer t a.timer when interval ∧
        a.sequence = s.timers.queue.mem.numCreated + 1 := by
  have hadds := h.adds_eq
  have hguard := h.guard
  rcases ha with ha | ⟨t, when, interval, ha⟩
  · have hmem : a ∈ s.adds ++ x.queuedAdds := by
      rw [hadds]
      exact List.mem_append_right _ ha
    refine .inl ?_
    rcases List.mem_append.mp hmem with hin | hqueued
    · refine ⟨.inl hin, fun hover => ?_⟩
      rcases Action.mem_handedOver hover with ⟨clock, rfl⟩ | ⟨clock, rfl⟩
      · obtain ⟨when, interval, hall⟩ := hguard
        exact inv.allocated_notMem _ a when interval hall hin
      · -- the functor of `a` was the only one
        have hnd := inv.adds_nodup
        rw [show s.adds = a :: s'.adds by
          simpa [Action.queuedAdds, Action.ranAdds] using hadds] at hnd
        exact (List.nodup_cons.mp hnd).1 ha
    · obtain ⟨t, clock, rfl⟩ := Action.mem_queuedAdds hqueued
      obtain ⟨when, interval, hall⟩ := hguard
      exact ⟨.inr ⟨_, when, interval, hall⟩, List.not_mem_nil⟩
  · rw [h.adding] at ha
    rcases Action.allocated_of ha with ⟨hall, hnot⟩ | ⟨hx, hseq⟩
    · refine .inl ⟨.inr ⟨t, when, interval, hall⟩, fun hover => ?_⟩
      rcases Action.mem_handedOver hover with ⟨clock, rfl⟩ | ⟨clock, rfl⟩
      · obtain ⟨when', interval', hall'⟩ := hguard
        obtain rfl := inv.allocated_inj _ _ a _ _ _ _ hall hall'
        exact hnot a clock rfl
      · refine inv.allocated_notMem t a when interval hall ?_
        have hmem : a ∈ s.adds ++ [] := by
          rw [show s.adds ++ [] = [a] ++ s'.adds from hadds]
          exact List.mem_append_left _ (List.mem_singleton_self a)
        simpa using hmem
    · exact .inr ⟨t, when, interval, hx, hseq⟩

/-- A Timer on its way is alive and has not been handed over. -/
theorem Effect.onItsWay (h : Effect s x s') (inv : Invariant s) {a : ActiveTimer}
    (ha : s'.OnItsWay a) : a ∉ s'.timers.handed ∧
      ∃ u, s'.timers.queue.mem.timerAt a.timer = some u ∧ u.sequence = a.sequence := by
  rw [h.handed_eq inv, List.mem_append, not_or]
  rcases h.onItsWay_of inv ha with ⟨hway, hover⟩ | ⟨t, when, interval, rfl, hseq⟩
  · obtain ⟨hfresh, u, hu, huseq⟩ := inv.onItsWay a hway
    refine ⟨⟨hover, hfresh⟩, u, ?_, huseq⟩
    rcases h.timers_cases inv with ⟨-, heq⟩ | ⟨y, -, heff⟩
    · rwa [heq]
    · refine heff.timerAt_of_unhanded inv.timers hu ?_
      rwa [huseq]
  · -- the number of a new Timer exceeds those of all Timers handed over
    have hfresh : a ∉ s.timers.handed := by
      intro hin
      have hle := inv.timers.handed_numbered hin
      omega
    refine ⟨⟨List.not_mem_nil, hfresh⟩, ?_⟩
    rcases h.timers_cases inv with ⟨hx, -⟩ | ⟨y, hx, heff⟩
    · cases hx
    · cases hx
      generalize s'.timers = timers at heff
      cases heff with
      | newTimer hfree => exact ⟨_, Memory.new_timerAt_self hfree, hseq.symm⟩

/-- Each Timer on its way has one owner. -/
theorem Effect.adds_nodup (h : Effect s x s') (inv : Invariant s) : s'.adds.Nodup := by
  have hguard := h.guard
  have hnd : (s.adds ++ x.queuedAdds).Nodup := by
    cases x with
    | publish t a clock =>
      obtain ⟨when, interval, hall⟩ := hguard
      cases t with
      | loop => simpa [Action.queuedAdds] using inv.adds_nodup
      | other t =>
        refine List.nodup_append.mpr ⟨inv.adds_nodup, List.nodup_singleton a, ?_⟩
        rintro b hb c hc rfl
        rw [List.mem_singleton.mp hc] at hb
        exact inv.allocated_notMem _ a when interval hall hb
    | _ => simpa [Action.queuedAdds] using inv.adds_nodup
  rw [h.adds_eq] at hnd
  exact (List.nodup_append.mp hnd).2.1

theorem Effect.allocated_notMem (h : Effect s x s') (inv : Invariant s) {t : Thread T}
    {a : ActiveTimer} {when : Timestamp} {interval : Seconds}
    (hall : s'.adding t = .allocated a when interval) : a ∉ s'.adds := by
  intro hin
  have hmem : a ∈ s.adds ++ x.queuedAdds := by
    rw [h.adds_eq]
    exact List.mem_append_right _ hin
  rw [h.adding] at hall
  rcases Action.allocated_of hall with ⟨hold, hnot⟩ | ⟨rfl, hseq⟩
  · rcases List.mem_append.mp hmem with hin | hqueued
    · exact inv.allocated_notMem t a when interval hold hin
    · obtain ⟨u, clock, rfl⟩ := Action.mem_queuedAdds hqueued
      obtain ⟨when', interval', hall'⟩ := h.guard
      obtain rfl := inv.allocated_inj _ _ a _ _ _ _ hold hall'
      exact hnot a clock rfl
  · have hway : s.OnItsWay a := .inl (by simpa [Action.queuedAdds] using hmem)
    obtain ⟨-, u, hu, huseq⟩ := inv.onItsWay a hway
    have hle := s.timers.queue.mem.numbered hu
    omega

theorem Effect.allocated_inj (h : Effect s x s') (inv : Invariant s) {t t' : Thread T}
    {a : ActiveTimer} {when when' : Timestamp} {interval interval' : Seconds}
    (hall : s'.adding t = .allocated a when interval)
    (hall' : s'.adding t' = .allocated a when' interval') : t = t' := by
  rw [h.adding] at hall hall'
  -- a new Timer has a new number
  have hnew : ∀ {u w i}, s.adding u = .allocated a w i →
      a.sequence ≠ s.timers.queue.mem.numCreated + 1 := by
    intro u w i hu heq
    obtain ⟨-, v, hv, hvseq⟩ := inv.onItsWay a (.inr ⟨u, w, i, hu⟩)
    have hle := s.timers.queue.mem.numbered hv
    omega
  rcases Action.allocated_of hall with ⟨hold, -⟩ | ⟨hx, hseq⟩
  · rcases Action.allocated_of hall' with ⟨hold', -⟩ | ⟨-, hseq⟩
    · exact inv.allocated_inj _ _ a _ _ _ _ hold hold'
    · exact absurd hseq (hnew hold)
  · rcases Action.allocated_of hall' with ⟨hold', -⟩ | ⟨hx', -⟩
    · exact absurd hseq (hnew hold')
    · rw [hx] at hx'
      cases hx'
      rfl

theorem Effect.published (h : Effect s x s') (inv : Invariant s) {t : Thread T}
    {a : ActiveTimer} {when : Timestamp} {interval : Seconds}
    (hpub : s'.adding t = .published a when interval) :
    a ∈ s'.timers.handed ∨ a ∈ s'.adds := by
  rw [h.adding] at hpub
  rcases Action.published_of hpub with hold | ⟨hall, b, clock, rfl⟩
  · exact h.arrives inv (inv.published t a when interval hold)
  · obtain ⟨when', interval', hall'⟩ := h.guard
    cases hall.symm.trans hall'
    cases t with
    | loop =>
      refine .inl ?_
      rw [h.handed_eq inv]
      exact List.mem_append_left _ (List.mem_singleton_self a)
    | other t =>
      refine .inr ?_
      have hadds : s.adds ++ [a] = [] ++ s'.adds := h.adds_eq
      rw [List.nil_append] at hadds
      rw [← hadds]
      exact List.mem_append_right _ (List.mem_singleton_self a)

/-- Where the result of a call comes from. -/
theorem Effect.mem_returned (h : Effect s x s') {a : ActiveTimer} {id : TimerId}
    (hret : (a, id) ∈ s'.returned) : (a, id) ∈ s.returned ∨
      ∃ t when interval u, s.adding t = .published a when interval ∧
        s.timers.queue.mem.timerAt a.timer = some u ∧ id = ⟨a.timer, u.sequence⟩ := by
  rw [h.returned] at hret
  cases x with
  | readSequence t b id' =>
    rcases List.mem_cons.mp hret with heq | hret
    · obtain ⟨rfl, rfl⟩ : a = b ∧ id = id' := by simpa using heq
      obtain ⟨-, ⟨when, interval, hpub⟩, u, hu, hid⟩ := h.guard
      exact .inr ⟨t, when, interval, u, hpub, hu, hid⟩
    · exact .inl hret
  | _ => exact .inl hret

theorem Effect.returned_of (h : Effect s x s') (inv : Invariant s) {a : ActiveTimer} {id : TimerId}
    (hret : (a, id) ∈ s'.returned) : s'.timers.Deleted a ∨
      id.toActive = a ∧ (a ∈ s'.timers.handed ∨ a ∈ s'.adds) := by
  have hold : s.timers.Deleted a ∨ id.toActive = a ∧ (a ∈ s.timers.handed ∨ a ∈ s.adds) := by
    rcases h.mem_returned hret with hret | ⟨t, when, interval, u, hpub, hu, rfl⟩
    · exact inv.returned a id hret
    · have harrived := inv.published t a when interval hpub
      rcases inv.live_or_deleted harrived with hdel | ⟨v, hv, hseq⟩
      · exact .inl hdel
      · cases hu.symm.trans hv
        exact .inr ⟨by rw [TimerId.toActive, hseq], harrived⟩
  exact hold.imp (h.deleted_mono inv) (And.imp_right (h.arrives inv))

/-- The steps of a call into the loop, from whatever thread. -/
def Action.Calling : Action T F C → Prop
  | newTimer .. | publish .. | readSequence .. | cancel .. | queueInLoop .. | quit _
  | wakeup _ => True
  | loop _ | runFunctor .. | handleRead _ | runTimer _ | reset _ => False

/-- A call moves neither the loop thread nor the batch. -/
theorem Effect.of_calling (h : Effect s x s') (inv : Invariant s) (hx : x.Calling) :
    s'.loop.pc = s.loop.pc ∧ s'.timers.phase = s.timers.phase := by
  constructor
  · have hloop := h.loop
    generalize s'.loop = l at hloop
    cases x with
    | publish t a clock =>
      cases t with
      | loop => rw [hloop]
      | other t => cases hloop; rfl
    | cancel t id =>
      cases t with
      | loop => rw [hloop]
      | other t => cases hloop; rfl
    | queueInLoop | quit | wakeup => cases hloop; rfl
    | newTimer | readSequence => rw [hloop]
    | _ => exact hx.elim
  · rcases h.timers_cases inv with ⟨-, heq⟩ | ⟨y, hy, heff⟩
    · rw [heq]
    · refine heff.phase_of_quiet ?_
      cases x with
      | publish t a clock => cases t <;> cases hy; trivial
      | cancel t id => cases t <;> cases hy; trivial
      | newTimer => cases hy; trivial
      | queueInLoop | quit | wakeup | readSequence => cases hy
      | _ => exact hx.elim

theorem Effect.phase (h : Effect s x s') (inv : Invariant s) : s'.timers.phase = .idle ∨
    ∃ active, s'.loop.pc = .handling (some .timerfdChannel) active := by
  by_cases hx : x.Calling
  · obtain ⟨hpc, hphase⟩ := h.of_calling inv hx
    rw [hpc, hphase]
    exact inv.phase
  have hloop := h.loop
  cases x with
  | loop y => exact .inl ((congrArg TimerQueue.State.phase h.timers).trans h.guard.2.1)
  | runFunctor f clock =>
    refine .inl ?_
    have hidle : s.timers.phase = .idle := by
      refine inv.idle fun active => ?_
      generalize s'.loop = l at hloop
      cases hloop with
      | runFunctor hpc => rw [hpc]; simp
    rcases h.timers_cases inv with ⟨-, heq⟩ | ⟨y, hy, heff⟩
    · rw [heq, hidle]
    · rw [heff.phase_of_quiet, hidle]
      cases f with
      | user f => cases hy
      | _ => cases hy; trivial
  | handleRead now =>
    refine .inr ?_
    generalize s'.loop = l at hloop
    cases hloop with
    | @handleEvent _ active hpc => exact ⟨active, rfl⟩
  | runTimer a =>
    obtain ⟨now, done, it, rest, u, hphase, -⟩ :=
      (TimerQueue.Step.effect_of_ok inv.timers h.timers).of_run
    rcases inv.phase with hidle | ⟨active, hpc⟩
    · cases hidle.symm.trans hphase
    · exact .inr ⟨active, (congrArg EventLoop.pc hloop).trans hpc⟩
  | reset clock =>
    refine .inl ?_
    have heff := TimerQueue.Step.effect_of_ok inv.timers h.timers
    generalize s'.timers = timers at heff
    cases heff with
    | reset => rfl
  | _ => exact absurd trivial hx

/-- A thread inside `addTimer` on the loop thread keeps the callback it is in. -/
theorem Effect.callback (h : Effect s x s') (inv : Invariant s) (hadd : s'.adding .loop ≠ .idle) :
    s'.InCallback := by
  have hguard := h.guard
  rw [h.adding] at hadd
  by_cases hx : x.Calling
  · obtain ⟨hpc, hphase⟩ := h.of_calling inv hx
    have hcallback : s.InCallback := by
      by_cases hold : s.adding .loop = .idle
      · rcases x.addingAfter_cases s .loop with ⟨heq, -⟩ | ⟨p, when, interval, rfl, -⟩ |
          ⟨a, clock, rfl, -⟩ | ⟨a, id, -, heq⟩
        · exact absurd (heq.trans hold) hadd
        · exact hguard.2.2 rfl
        · obtain ⟨when, interval, hall⟩ := hguard
          cases hold.symm.trans hall
        · exact absurd heq hadd
      · exact inv.callback hold
    rw [InCallback, hpc, hphase]
    exact hcallback
  · -- the loop thread moves on only between its calls
    refine absurd ?_ hadd
    cases x with
    | loop y => exact hguard.1.1
    | runFunctor | handleRead | runTimer | reset => exact hguard.1
    | _ => exact absurd trivial hx

/-- **Step lemma.** -/
theorem Effect.invariant (h : Effect s x s') (inv : Invariant s) : Invariant s' where
  timers := by
    rcases h.timers_cases inv with ⟨-, heq⟩ | ⟨y, -, heff⟩
    · rw [heq]; exact inv.timers
    · exact heff.invariant inv.timers
  phase := h.phase inv
  callback := h.callback inv
  onItsWay _ := h.onItsWay inv
  adds_nodup := h.adds_nodup inv
  allocated_notMem _ _ _ _ := h.allocated_notMem inv
  allocated_inj _ _ _ _ _ _ _ := h.allocated_inj inv
  published _ _ _ _ := h.published inv
  returned _ _ := h.returned_of inv

end Step

theorem invariant_init {s : Reactor T F C} (h : (machine T F C).init s) : Invariant s := by
  obtain ⟨⟨hpc, -, -, hpending, -⟩, htimers, hidle, hadding, hreturned⟩ := h
  have hadds : s.adds = [] := by
    simp [adds, EventLoop.outstanding, hpc, hpending, EventLoop.Pc.rest]
  refine ⟨TimerQueue.reachable_invariant htimers, .inl hidle, fun hne => absurd (hadding _) hne,
    ?_, hadds ▸ .nil, ?_, ?_, ?_, fun a id hret => .inr ⟨(hreturned _ hret).1,
      .inl (hreturned _ hret).2⟩⟩
  · rintro a (ha | ⟨t, when, interval, ha⟩)
    · rw [hadds] at ha
      cases ha
    · cases (hadding t).symm.trans ha
  · intro t a when interval ha
    cases (hadding t).symm.trans ha
  · intro t t' a when interval when' interval' ha
    cases (hadding t).symm.trans ha
  · intro t a when interval ha
    cases (hadding t).symm.trans ha

/-- **Run lemma.** -/
theorem reachable_invariant {s : Reactor T F C} (h : (machine T F C).Reachable s) :
    Invariant s := by
  refine h.invariant invariant_init ?_
  intro s x s' inv hstep
  rcases Step.effect inv hstep with ⟨u, hu, heff⟩ | ⟨herr, -⟩
  · cases hu
    exact heff.invariant inv
  · cases herr

/-- What a step from a reachable state does. -/
theorem reachable_effect {s s' : Reactor T F C} {x : Action T F C}
    (h : (machine T F C).Reachable s) (hstep : (machine T F C).step s x (.ok s')) :
    Effect s x s' := by
  rcases Step.effect (reachable_invariant h) hstep with ⟨u, hu, heff⟩ | ⟨herr, -⟩
  · cases hu
    exact heff
  · cases herr

/-! ## The two parts -/

/-- The event loop of a reactor. -/
def loopProjection : Projection (machine T F C)
    (EventLoop.machine T (LoopFunctor F) (LoopChannel C)) where
  state := Reactor.loop
  label x := x.loopLabel.toList
  init h := .of_init h.1
  step {s x s'} hs hstep := by
    have hloop := (reachable_effect hs hstep).loop
    cases hx : x.loopLabel with
    | none => rw [hx] at hloop; rw [hloop]; exact .nil
    | some y => rw [hx] at hloop; exact .single hloop

/-- The timer queue of a reactor. -/
def timerProjection : Projection (machine T F C) TimerQueue.machine where
  state := Reactor.timers
  label x := x.timerLabel.toList
  init h := h.2.1
  step {s x s'} hs hstep := by
    have htimers := (reachable_effect hs hstep).timers
    cases hx : x.timerLabel with
    | none => rw [hx] at htimers; rw [htimers]; exact .nil
    | some y => rw [hx] at htimers; exact .single htimers

end Reactor

end Dxian
