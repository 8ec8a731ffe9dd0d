import Dxian.Net.EventLoop
import Dxian.Net.TimerQueue.Machine

/-!
# Timers from any thread

`runAt`, `runAfter`, `runEvery` and `cancel` reach the timer queue of a loop from
any thread: directly on the loop thread, through the functor queue elsewhere.
A `Reactor` is an event loop together with its timer queue and the calls to
`addTimer` that the threads are in the middle of.

A call to `addTimer` is three steps, as in the source: `new Timer`, then
`runInLoop`, then the read of `timer->sequence()` for the result.
-/

namespace Dxian

open Transition

/-- What is queued in a loop. A functor of `addTimer` is bound to the pointer of
its Timer; the sequence number with it is a record of which Timer was meant. -/
inductive LoopFunctor (F : Type*)
  | addTimerInLoop (timer : ActiveTimer)
  | cancelInLoop (timerId : TimerId)
  | user (f : F)
deriving DecidableEq

/-- The channels of a loop, besides the one of its wakeupfd. -/
inductive LoopChannel (C : Type*)
  | timerfdChannel
  | user (c : C)
deriving DecidableEq

/-- Where a thread is in `addTimer`. The record of the sequence number is the one
the constructor of the Timer assigned. -/
inductive Adding
  | idle
  | allocated (timer : ActiveTimer) (when : Timestamp) (interval : Seconds)
  | published (timer : ActiveTimer) (when : Timestamp) (interval : Seconds)
deriving DecidableEq

/-- An event loop with its timer queue. `returned` records, for every call of
`addTimer` that has returned, its Timer and its result. -/
structure Reactor (T F C : Type*) where
  loop : EventLoop T (LoopFunctor F) (LoopChannel C)
  timers : TimerQueue.State
  adding : Thread T → Adding
  returned : List (ActiveTimer × TimerId)

namespace Reactor

variable {T F C : Type*}

/-- The call of a functor on the loop thread; `clock` is for `resetTimerfd`. What
a functor of the user does are steps of their own. -/
def exec (s : Reactor T F C) (functor : LoopFunctor F) (clock : Timestamp) :
    Except Fault (Reactor T F C) :=
  match functor with
  | .addTimerInLoop a => (s.timers.queue.addTimerInLoop a.timer clock).map fun q =>
      { s with timers := { s.timers with queue := q, handed := a :: s.timers.handed } }
  | .cancelInLoop id => (s.timers.queue.cancelInLoop id).map fun q =>
      { s with timers := { s.timers with queue := q } }
  | .user _ => .ok s

/-- `EventLoop::runInLoop`. -/
def runInLoop [DecidableEq T] (s : Reactor T F C) (t : Thread T) (cb : LoopFunctor F)
    (clock : Timestamp) : Except Fault (Reactor T F C) :=
  if t.isInLoopThread then s.exec cb clock
  else .ok { s with loop := s.loop.queueInLoop t cb }

/-- Code of the user is running on the loop thread: the handler of a channel, a
functor, or the callback of a timer. -/
def InCallback (s : Reactor T F C) : Prop :=
  match s.loop.pc with
  | .handling (some (.user _)) _ | .running (some (.user _)) _ => True
  | .handling (some .timerfdChannel) _ => s.timers.phase.started ≠ []
  | _ => False

theorem InCallback.loop {s : Reactor T F C} (h : s.InCallback) : s.loop.pc.InCallback := by
  unfold InCallback at h
  split at h
  · next hpc => rw [hpc]; trivial
  · next hpc => rw [hpc]; trivial
  · next hpc => rw [hpc]; trivial
  · exact h.elim

instance (s : Reactor T F C) : Decidable s.InCallback :=
  decidable_of_bool (match s.loop.pc with
    | .handling (some (.user _)) _ | .running (some (.user _)) _ => true
    | .handling (some .timerfdChannel) _ => !s.timers.phase.started.isEmpty
    | _ => false) (by unfold InCallback; split <;> simp_all)

/-- The thread may call a function of the loop. -/
def Ready (s : Reactor T F C) (t : Thread T) : Prop :=
  s.adding t = .idle ∧ s.loop.calling t = .returned ∧ (t = .loop → s.InCallback)

instance [DecidableEq T] (s : Reactor T F C) (t : Thread T) : Decidable (s.Ready t) :=
  inferInstanceAs (Decidable (_ ∧ _))

/-- The loop thread is not in the middle of a call. -/
def LoopReady (s : Reactor T F C) : Prop :=
  s.adding .loop = .idle ∧ s.loop.calling .loop = .returned

instance (s : Reactor T F C) : Decidable s.LoopReady := inferInstanceAs (Decidable (_ ∧ _))

inductive Action (T F C : Type*)
  | newTimer (t : Thread T) (p : Ptr) (when : Timestamp) (interval : Seconds)
  | publish (t : Thread T) (timer : ActiveTimer) (clock : Timestamp)
  | readSequence (t : Thread T) (timer : ActiveTimer) (result : TimerId)
  | cancel (t : Thread T) (timerId : TimerId)
  | queueInLoop (t : Thread T) (f : F)
  | quit (t : Thread T)
  | wakeup (t : Thread T)
  | loop (a : EventLoop.Action T (LoopFunctor F) (LoopChannel C))
  | runFunctor (functor : LoopFunctor F) (clock : Timestamp)
  | handleRead (now : Timestamp)
  | runTimer (timer : ActiveTimer)
  | reset (clock : Timestamp)

/-- The steps of the loop thread that start no functor and no `handleRead` of the timers. -/
def Internal : EventLoop.Action T (LoopFunctor F) (LoopChannel C) → Prop
  | .queueInLoop .. | .quit _ | .wakeup _ | .runFunctor _ | .handleEvent .timerfdChannel => False
  | _ => True

instance : DecidablePred (@Internal T F C)
  | .queueInLoop .. | .quit _ | .wakeup _ | .runFunctor _ | .handleEvent .timerfdChannel =>
    isFalse id
  | .test | .poll _ | .handleRead | .handleEvent (.user _) | .finishEvent | .doPendingFunctors
  | .swap | .finishFunctor | .finishFunctors => isTrue trivial

/-- One step of some thread. The event of the timerfd is `handleRead`, the
callbacks and `reset`; it is over when the timer queue is idle again. An id is
known from the call that returned it, or is the default one. -/
inductive Step [DecidableEq T] (s : Reactor T F C) :
    Action T F C → Except Fault (Reactor T F C) → Prop
  | newTimer {t p when interval} (hready : s.Ready t) (h : s.timers.queue.mem.Free p) :
      Step s (.newTimer t p when interval) (.ok { s with
        timers := { s.timers with
          queue := { s.timers.queue with mem := s.timers.queue.mem.new p when interval h } }
        adding := Function.update s.adding t
          (.allocated ⟨p, s.timers.queue.mem.numCreated + 1⟩ when interval) })
  | publish {t a when interval clock r} (hadd : s.adding t = .allocated a when interval)
      (hcall : s.loop.calling t = .returned)
      (hr : (s.runInLoop t (.addTimerInLoop a) clock).map
        (fun u => { u with adding := Function.update u.adding t (.published a when interval) })
          = r) :
      Step s (.publish t a clock) r
  | readSequence {t a when interval id r} (hadd : s.adding t = .published a when interval)
      (hcall : s.loop.calling t = .returned)
      (hid : ∀ u, s.timers.queue.mem.deref a.timer = .ok u → id = ⟨a.timer, u.sequence⟩)
      (hr : (s.timers.queue.mem.deref a.timer).map
        (fun _ => { s with
          adding := Function.update s.adding t .idle
          returned := (a, id) :: s.returned }) = r) :
      Step s (.readSequence t a id) r
  | cancel {t id r} (hready : s.Ready t) (hid : id = .default ∨ ∃ a, (a, id) ∈ s.returned)
      (hr : s.runInLoop t (.cancelInLoop id) .invalid = r) :
      Step s (.cancel t id) r
  | queueInLoop {t f} (hready : s.Ready t) :
      Step s (.queueInLoop t f) (.ok { s with loop := s.loop.queueInLoop t (.user f) })
  | quit {t} (hready : s.Ready t) : Step s (.quit t) (.ok { s with loop := s.loop.quit t })
  | wakeup {t} (hcall : s.loop.calling t ≠ .returned) :
      Step s (.wakeup t) (.ok { s with loop := s.loop.wakeup t })
  | loop {x l} (hready : s.LoopReady) (hidle : s.timers.phase = .idle) (hx : Internal x)
      (h : EventLoop.Step s.loop x (.ok l)) :
      Step s (.loop x) (.ok { s with loop := l })
  | runFunctor {f functors clock r} (hready : s.LoopReady)
      (hpc : s.loop.pc = .running none (f :: functors))
      (hr : ({ s with loop := { s.loop with pc := .running (some f) functors } } :
        Reactor T F C).exec f clock = r) :
      Step s (.runFunctor f clock) r
  | handleRead {now active r} (hready : s.LoopReady)
      (hpc : s.loop.pc = .handling none (.channel .timerfdChannel :: active))
      (h : TimerQueue.Step s.timers (.handleRead now) r) :
      Step s (.handleRead now) (r.map fun x => { s with
        timers := x
        loop := { s.loop with pc := .handling (some .timerfdChannel) active } })
  | runTimer {a r} (hready : s.LoopReady) (h : TimerQueue.Step s.timers (.run a) r) :
      Step s (.runTimer a) (r.map fun x => { s with timers := x })
  | reset {clock r} (hready : s.LoopReady) (h : TimerQueue.Step s.timers (.reset clock) r) :
      Step s (.reset clock) (r.map fun x => { s with timers := x })

/-- A loop from the start of `loop` on. Its own thread may have used the timer
queue before; no functor is queued and no call is in progress. -/
def machine (T F C : Type*) [DecidableEq T] : System (Reactor T F C) (Action T F C) Fault where
  init s := (EventLoop.machine T (LoopFunctor F) (LoopChannel C)).init s.loop ∧
    TimerQueue.machine.Reachable s.timers ∧ s.timers.phase = .idle ∧
    (∀ t, s.adding t = .idle) ∧
    ∀ x ∈ s.returned, x.2.toActive = x.1 ∧ x.1 ∈ s.timers.handed
  step := Step

/-- A loop that has just been constructed. -/
def fresh (T F C : Type*) : Reactor T F C where
  loop := ⟨false, false, [], 0, .testing, fun _ => .returned⟩
  timers := ⟨.empty .empty, .idle, []⟩
  adding _ := .idle
  returned := []

theorem fresh_init (T F C : Type*) [DecidableEq T] : (machine T F C).init (fresh T F C) :=
  ⟨⟨rfl, rfl, rfl, rfl, rfl⟩, .of_init ⟨_, rfl⟩, rfl, fun _ => rfl, by simp [fresh]⟩

section Next

variable [DecidableEq T] [DecidableEq F] [DecidableEq C]

/-- The successor of a state, where the step is possible and does not fault. -/
def next (s : Reactor T F C) : Action T F C → Option (Reactor T F C)
  | .newTimer t p when interval =>
    if h : s.Ready t ∧ s.timers.queue.mem.Free p then
      some { s with
        timers := { s.timers with
          queue := { s.timers.queue with mem := s.timers.queue.mem.new p when interval h.2 } }
        adding := Function.update s.adding t
          (.allocated ⟨p, s.timers.queue.mem.numCreated + 1⟩ when interval) }
    else none
  | .publish t a clock =>
    match s.adding t with
    | .allocated b when interval =>
      if b = a ∧ s.loop.calling t = .returned then
        (s.runInLoop t (.addTimerInLoop a) clock).toOption.map fun u =>
          { u with adding := Function.update u.adding t (.published a when interval) }
      else none
    | _ => none
  | .readSequence t a id =>
    match s.adding t with
    | .published b _ _ =>
      if b = a ∧ s.loop.calling t = .returned ∧ id.timer = a.timer ∧
          (s.timers.queue.mem.timerAt a.timer).map Timer.sequence = some id.sequence then
        some { s with
          adding := Function.update s.adding t .idle
          returned := (a, id) :: s.returned }
      else none
    | _ => none
  | .cancel t id =>
    if s.Ready t ∧ (id = .default ∨ id ∈ s.returned.map Prod.snd) then
      (s.runInLoop t (.cancelInLoop id) .invalid).toOption
    else none
  | .queueInLoop t f =>
    if s.Ready t then some { s with loop := s.loop.queueInLoop t (.user f) } else none
  | .quit t => if s.Ready t then some { s with loop := s.loop.quit t } else none
  | .wakeup t =>
    if s.loop.calling t ≠ .returned then some { s with loop := s.loop.wakeup t } else none
  | .loop x =>
    if s.LoopReady ∧ s.timers.phase.isCalling = false ∧ Internal x then
      (EventLoop.next s.loop x).map fun l => { s with loop := l }
    else none
  | .runFunctor f clock =>
    match s.loop.pc with
    | .running none (g :: functors) =>
      if s.LoopReady ∧ g = f then
        (({ s with loop := { s.loop with pc := .running (some f) functors } } :
          Reactor T F C).exec f clock).toOption
      else none
    | _ => none
  | .handleRead now =>
    match s.loop.pc with
    | .handling none (.channel .timerfdChannel :: active) =>
      if s.LoopReady then
        (TimerQueue.next s.timers (.handleRead now)).map fun x => { s with
          timers := x
          loop := { s.loop with pc := .handling (some .timerfdChannel) active } }
      else none
    | _ => none
  | .runTimer a =>
    if s.LoopReady then (TimerQueue.next s.timers (.run a)).map fun x => { s with timers := x }
    else none
  | .reset clock =>
    if s.LoopReady then
      (TimerQueue.next s.timers (.reset clock)).map fun x => { s with timers := x }
    else none

theorem step_of_next {s s' : Reactor T F C} {x : Action T F C} (h : next s x = some s') :
    Step s x (.ok s') := by
  cases x with
  | newTimer t p when interval =>
    simp only [next] at h
    split at h
    · next hc => cases h; exact .newTimer hc.1 hc.2
    · cases h
  | publish t a clock =>
    simp only [next] at h
    split at h
    · next b when interval hadd =>
      obtain ⟨⟨rfl, hcall⟩, hr⟩ := Option.ite_none_right_eq_some.mp h
      exact .publish hadd hcall (map_eq_of_toOption hr)
    · cases h
  | readSequence t a id =>
    simp only [next] at h
    split at h
    · next b when interval hadd =>
      obtain ⟨⟨rfl, hcall, htimer, hseq⟩, ⟨⟩⟩ := Option.ite_none_right_eq_some.mp h
      obtain ⟨u, hu, hid⟩ := Option.map_eq_some_iff.mp hseq
      obtain ⟨p, n⟩ := id
      obtain rfl : p = b.timer := htimer
      obtain rfl : u.sequence = n := hid
      have hderef := Memory.deref_of_live hu
      refine .readSequence hadd hcall (fun v hv => ?_) (by rw [hderef]; rfl)
      rw [Except.ok.inj (hderef.symm.trans hv)]
    · cases h
  | cancel t id =>
    obtain ⟨⟨hready, hid⟩, hr⟩ := Option.ite_none_right_eq_some.mp h
    refine .cancel hready (hid.imp_right fun hin => ?_) (eq_ok_of_toOption hr)
    obtain ⟨⟨a, id'⟩, hmem, rfl⟩ := List.mem_map.mp hin
    exact ⟨a, hmem⟩
  | queueInLoop t f =>
    obtain ⟨hready, ⟨⟩⟩ := Option.ite_none_right_eq_some.mp h
    exact .queueInLoop hready
  | quit t =>
    obtain ⟨hready, ⟨⟩⟩ := Option.ite_none_right_eq_some.mp h
    exact .quit hready
  | wakeup t =>
    obtain ⟨hcall, ⟨⟩⟩ := Option.ite_none_right_eq_some.mp h
    exact .wakeup hcall
  | loop x =>
    obtain ⟨⟨hready, hphase, hx⟩, hnext⟩ := Option.ite_none_right_eq_some.mp h
    obtain ⟨l, hl, rfl⟩ := Option.map_eq_some_iff.mp hnext
    exact .loop hready (TimerQueue.Phase.eq_idle hphase) hx (EventLoop.step_of_next hl)
  | runFunctor f clock =>
    simp only [next] at h
    split at h
    · next g functors hpc =>
      obtain ⟨⟨hready, rfl⟩, hr⟩ := Option.ite_none_right_eq_some.mp h
      exact .runFunctor hready hpc (eq_ok_of_toOption hr)
    · cases h
  | handleRead now =>
    simp only [next] at h
    split at h
    · next active hpc =>
      obtain ⟨hready, hx⟩ := Option.ite_none_right_eq_some.mp h
      obtain ⟨y, hy, rfl⟩ := Option.map_eq_some_iff.mp hx
      exact .handleRead hready hpc (TimerQueue.step_of_next hy)
    · cases h
  | runTimer a =>
    obtain ⟨hready, hx⟩ := Option.ite_none_right_eq_some.mp h
    obtain ⟨y, hy, rfl⟩ := Option.map_eq_some_iff.mp hx
    exact .runTimer hready (TimerQueue.step_of_next hy)
  | reset clock =>
    obtain ⟨hready, hx⟩ := Option.ite_none_right_eq_some.mp h
    obtain ⟨y, hy, rfl⟩ := Option.map_eq_some_iff.mp hx
    exact .reset hready (TimerQueue.step_of_next hy)

/-- Runs that `next` can compute. -/
theorem exists_run {s : Reactor T F C} {w : List (Action T F C)} {P : Reactor T F C → Bool}
    (h : (w.foldlM next s).any P) : ∃ u, (machine T F C).Run s w u ∧ P u := by
  obtain ⟨u, hu, hP⟩ := Option.any_eq_true .. |>.mp h
  exact ⟨u, .of_foldlM step_of_next hu, hP⟩

end Next

end Reactor

end Dxian
