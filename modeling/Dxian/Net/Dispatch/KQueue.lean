import Dxian.Net.Dispatch.Pollers
import Dxian.Net.Poller.KQueue

/-!
# The loop over `kqueue`

On `__APPLE__` nobody writes to `channels_`, where `fillActiveChannels` looks for the channel of
every event. The first event that `kevent` reports fails its `assert`.

## Main results

- `Deaf.step` — no channel is ever to be handled
- `kqueue_loop_calls_no_handler` — every run up to the first event
-/

namespace Dxian

open Transition

/-- `EVFILT_READ` and `EVFILT_WRITE` as `set_revents` gets them. -/
def Filter.revents : Filter → BitVec 32
  | read => -1
  | write => -2

namespace KQueuePoller

variable {Ch : Type} (fd : Ch → ℕ)

/-- What `kevent` may answer, with room for `size` events: some of the enabled filters, each
once, with the channel that is their `udata`. `none` is the answer -1. -/
def Answers (s : PollerState Ch (KQueuePoller Ch)) (size : ℕ) : Option (List (Filter × Ch)) → Prop
  | none => True
  | some events => events.length ≤ size ∧ events.Nodup ∧
      ∀ e ∈ events, s.poller.filters (fd e.2) e.1 = some true

variable [DecidableEq Ch]

/-- `EPollPoller::poll` on `__APPLE__`; `size` is the size of `events_`. -/
def poll (s : PollerState Ch (KQueuePoller Ch)) (size : ℕ) (revents : Ch → BitVec 32) :
    Option (List (Filter × Ch)) → Except Fault (Polled Ch (KQueuePoller Ch) ℕ)
  | none => .ok ⟨s, size, revents, []⟩
  | some events =>
    if 0 < events.length then do
      check (events.length ≤ size)
      let (revents, activeChannels) ← EPollPoller.fillActiveChannels fd s.poller.channels
        (events.map fun e => (e.1.revents, e.2)) revents
      let size := if events.length = size then size * 2 else size
      return ⟨s, size, revents, activeChannels⟩
    else .ok ⟨s, size, revents, []⟩

variable {fd} {s : PollerState Ch (KQueuePoller Ch)} {size : ℕ} {revents : Ch → BitVec 32}

/-- An event has no channel in `channels_`. -/
theorem Invariant.poll_event (inv : Invariant s) {events : List (Filter × Ch)}
    (h : events ≠ []) : poll fd s size revents (some events) = .error .assertion := by
  obtain ⟨e, rest, rfl⟩ := List.exists_cons_of_ne_nil h
  have hfill : ∀ l, EPollPoller.fillActiveChannels fd s.poller.channels
      ((e.1.revents, e.2) :: l) revents = .error .assertion := by
    intro l
    rw [EPollPoller.fillActiveChannels, inv.channels]
    rfl
  rw [poll, if_pos (List.length_pos_iff.mpr h), List.map_cons, hfill]
  cases decide ((e :: rest).length ≤ size) <;> rfl

/-- Without an event, `poll` changes nothing. -/
theorem poll_nothing {a : Option (List (Filter × Ch))}
    (h : ∀ events, a = some events → events = []) :
    poll fd s size revents a = .ok ⟨s, size, revents, []⟩ := by
  cases a with
  | none => rfl
  | some events =>
    rw [h events rfl]
    rfl

end KQueuePoller

/-- The `__APPLE__` branches of `EPollPoller` with its `poll`. -/
def kQueueDemultiplexer {Ch : Type} [DecidableEq Ch] (fd : Ch → ℕ) :
    Demultiplexer Ch (KQueuePoller Ch) ℕ (Option (List (Filter × Ch))) where
  toPoller := kQueuePoller fd
  emptyWait := EPollPoller.kInitEventListSize
  answers := KQueuePoller.Answers fd
  poll := KQueuePoller.poll fd

namespace Dispatcher

variable {T F C : Type} [DecidableEq C] {fd : ActiveChannel C → ℕ}
variable {d d' : Dispatcher T F C (KQueuePoller (ActiveChannel C)) ℕ}

/-- No channel is to be handled. -/
structure Deaf (d : Dispatcher T F C (KQueuePoller (ActiveChannel C)) ℕ) : Prop where
  pollers : KQueuePoller.Invariant d.pollers
  pending : d.pending = []

/-- `n == 1` in `removeChannel` fails, unless an `assert` before it does. -/
theorem Deaf.call_remove (h : Deaf d) (c : ActiveChannel C) :
    d.call (kQueueDemultiplexer fd) c .remove = .error .assertion := by
  have hremove : ∀ y, (kQueueDemultiplexer fd).removeChannel (d.pollers.set c y) c =
      .error .assertion := fun y => KQueuePoller.removeChannel_fails (h.pollers.channels _)
  rw [call, removeChannel, hremove]
  cases (d.pollers.channel c).isNoneEvent with
  | false => rfl
  | true =>
    cases d.eventHandling with
    | false => rfl
    | true => cases d.currentActiveChannel == some c || !d.activeChannels.contains c <;> rfl

variable [DecidableEq T]

/-- **Step lemma.** -/
theorem Deaf.step (h : Deaf d) {x : Action T F C (Option (List (Filter × ActiveChannel C)))}
    (hstep : Step (kQueueDemultiplexer fd) d x (.ok d')) : Deaf d' := by
  cases hstep with
  | enter => exact ⟨h.pollers, rfl⟩
  | @loop x l hpoll hloop =>
    refine ⟨?_, List.eq_nil_iff_forall_not_mem.mpr fun c hc => ?_⟩
    · rw [advance_pollers]
      exact h.pollers
    · have hbefore := mem_pending_of_loop hpoll hloop hc
      rw [h.pending] at hbefore
      cases hbefore
  | @poll a _ hpc ha hr =>
    by_cases hevents : ∀ events, a = some events → events = []
    · have hpoll : (kQueueDemultiplexer fd).poll d.pollers d.wait d.revents a =
        .ok ⟨d.pollers, d.wait, d.revents, []⟩ := KQueuePoller.poll_nothing hevents
      rw [hpoll] at hr
      cases hr
      exact ⟨h.pollers, rfl⟩
    · push Not at hevents
      obtain ⟨events, rfl, hne⟩ := hevents
      have hpoll : (kQueueDemultiplexer fd).poll d.pollers d.wait d.revents (some events) =
        .error .assertion := h.pollers.poll_event hne
      rw [hpoll] at hr
      cases hr
  | @call c op _ hpc hcall hr =>
    obtain ⟨s, hs, rfl⟩ := exists_of_map_eq_ok hr
    cases op with
    | change x => exact ⟨(h.pollers.step (a := (c, .change x)) hs).1, h.pending⟩
    | remove => cases (h.call_remove c).symm.trans hs

theorem Deaf.of_reachable (h : (machine T F (kQueueDemultiplexer fd)).Reachable d) : Deaf d := by
  refine h.invariant (fun {d} hinit => ?_) fun hd hstep => hd.step hstep
  obtain ⟨hpc, hfresh, -⟩ := hinit
  refine ⟨?_, ?_⟩
  · rw [hfresh]
    exact KQueuePoller.Invariant.fresh
  · rw [Dispatcher.pending, hpc]

end Dispatcher

/-- **The loop on `__APPLE__`.** In every run of the loop over the `kqueue` backend, with any
operations on its channels: no channel gets the control, the wakeup channel included. A `poll`
fails an `assert` if and only if `kevent` reports an event, and the removal of a channel always
fails one. -/
theorem kqueue_loop_calls_no_handler {T F C : Type} [DecidableEq T] [DecidableEq C]
    {fd : ActiveChannel C → ℕ} {d : Dispatcher T F C (KQueuePoller (ActiveChannel C)) ℕ}
    (h : (Dispatcher.machine T F (kQueueDemultiplexer fd)).Reachable d) :
    (∀ x d', Dispatcher.Step (kQueueDemultiplexer fd) d (.loop x) (.ok d') →
      x.dispatched = none) ∧
    (∀ a r, Dispatcher.Step (kQueueDemultiplexer fd) d (.poll a) r →
      (r = .error .assertion ↔ ∃ events, a = some events ∧ events ≠ [])) ∧
    ∀ c r, Dispatcher.Step (kQueueDemultiplexer fd) d (.call c .remove) r →
      r = .error .assertion := by
  have hd := Dispatcher.Deaf.of_reachable h
  refine ⟨fun x d' hstep => ?_, fun a r hstep => ?_, fun c r hstep => ?_⟩
  · cases hstep with
    | loop hpoll hloop =>
      rcases Dispatcher.loop_pending hpoll hloop with heq | ⟨-, hnone⟩
      · rw [hd.pending] at heq
        exact Option.toList_eq_nil_iff.mp (List.append_eq_nil_iff.mp heq.symm).1
      · exact hnone
  · cases hstep with
    | poll hpc ha hr =>
      constructor
      · intro herr
        by_contra hnone
        push Not at hnone
        have hpoll : (kQueueDemultiplexer fd).poll d.pollers d.wait d.revents a =
          .ok ⟨d.pollers, d.wait, d.revents, []⟩ := KQueuePoller.poll_nothing hnone
        rw [hpoll, herr] at hr
        cases hr
      · rintro ⟨events, rfl, hne⟩
        have hpoll : (kQueueDemultiplexer fd).poll d.pollers d.wait d.revents (some events) =
          .error .assertion := hd.pollers.poll_event hne
        rw [hpoll] at hr
        exact hr.symm
  · cases hstep with
    | call hpc hcall hr =>
      rw [hd.call_remove] at hr
      exact hr.symm

/-- The wakeup channel is registered, and its event stops the loop. -/
theorem kqueue_loop_calls_no_handler_wakeup :
    ∃ (d : Dispatcher Unit Unit (Option Bool) _ ℕ)
      (r : Except Fault (Dispatcher Unit Unit (Option Bool) _ ℕ)),
      Dispatcher.Step (kQueueDemultiplexer sharedFd) d (.poll (some [(.read, .wakeupChannel)])) r ∧
        r = .error .assertion := by
  obtain ⟨d, hrun, hpc, hfilter, hwait⟩ :
      ∃ d, (Dispatcher.machine Unit Unit (kQueueDemultiplexer sharedFd)).Run
        (.fresh (kQueueDemultiplexer sharedFd))
        [.call .wakeupChannel (.change .enableReading), .enter, .loop .test] d ∧
        d.loop.pc = .polling ∧ d.pollers.poller.filters 3 .read = some true ∧ d.wait = 16 :=
    ⟨_, .cons (.call (.inr rfl) rfl rfl) <| .cons (.enter rfl) <|
      .single (.loop (by simp) (.test rfl)), rfl, by decide, rfl⟩
  have hanswers :
      KQueuePoller.Answers sharedFd d.pollers d.wait (some [(.read, .wakeupChannel)]) := by
    refine ⟨?_, by simp, fun e he => ?_⟩
    · rw [hwait]
      decide
    · rw [List.mem_singleton.mp he]
      exact hfilter
  have hpoll := Dispatcher.Step.poll (D := kQueueDemultiplexer sharedFd)
    (a := some [(.read, .wakeupChannel)]) hpc hanswers rfl
  have hall := kqueue_loop_calls_no_handler
    ((System.Reachable.of_init (Dispatcher.fresh_init _)).run hrun)
  exact ⟨d, _, hpoll, (hall.2.1 _ _ hpoll).mpr ⟨_, rfl, by simp⟩⟩

end Dxian
