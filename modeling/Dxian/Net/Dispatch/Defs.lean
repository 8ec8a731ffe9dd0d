import Dxian.Net.Channel
import Dxian.Net.EventLoop

/-!
# The event loop and its poller

`EventLoop::loop` asks its poller for the active channels and calls the handler of
each. A handler may call the operations of any channel of the loop, also of those
that are still to be handled; `EventLoop::removeChannel` has an `assert` about these.

The part of a poller that waits is a `Demultiplexer`. What the kernel answers to
`poll` is an argument: `answers` says which answers it may give.

## Main definitions

- `Demultiplexer.Sound` — what the loop needs to know of `poll`
- `Dispatcher.machine` — the loop, its poller and the operations on its channels
-/

namespace Dxian

open Transition

/-- What `poll` leaves behind: the channels and the poller, the members that only
`poll` uses, the `revents_` of the channels and the active channels. -/
structure Polled (Ch P X : Type) where
  pollers : PollerState Ch P
  wait : X
  revents : Ch → BitVec 32
  activeChannels : List Ch

/-- A poller with its virtual function `poll`. -/
structure Demultiplexer (Ch P X A : Type) extends Poller Ch P where
  emptyWait : X
  answers : PollerState Ch P → X → A → Prop
  poll : PollerState Ch P → X → (Ch → BitVec 32) → A → Except Fault (Polled Ch P X)

/-- What the loop needs to know of `poll`: it fails no `assert`, and reports
registered channels, each once. `I` is the invariant of the poller. -/
structure Demultiplexer.Sound {Ch P X A : Type} [DecidableEq Ch] (D : Demultiplexer Ch P X A)
    (fd : Ch → ℕ) (I : PollerState Ch P → Prop) : Prop where
  refines : D.toPoller.Refines fd I
  poll : ∀ {s wait revents a}, I s → D.answers s wait a → ∃ p,
    D.poll s wait revents a = .ok p ∧ I p.pollers ∧
      D.interest fd p.pollers = D.interest fd s ∧ p.activeChannels.Nodup ∧
      ∀ c ∈ p.activeChannels, D.hasChannel fd s c = true

/-- `class EventLoop` with its poller; the wakeup channel is one of the channels. -/
structure Dispatcher (T F C P X : Type) where
  loop : EventLoop T F C
  pollers : PollerState (ActiveChannel C) P
  wait : X
  revents : ActiveChannel C → BitVec 32
  activeChannels : List (ActiveChannel C)
  eventHandling : Bool
  currentActiveChannel : Option (ActiveChannel C)

/-- The channel that a step of the loop hands the control to. -/
def EventLoop.Action.dispatched {T F C : Type*} : EventLoop.Action T F C → Option (ActiveChannel C)
  | handleRead => some .wakeupChannel
  | handleEvent c => some (.channel c)
  | _ => none

namespace Dispatcher

variable {T F C P X A : Type} [DecidableEq T] [DecidableEq C]

/-- `enter` is a call of `loop`, `call` one of an operation of a channel; the others
are the steps of the loop. -/
inductive Action (T F C A : Type)
  | enter
  | loop (x : EventLoop.Action T F C)
  | poll (answer : A)
  | call (channel : ActiveChannel C) (op : Channel.Op)

/-- `EventLoop::removeChannel`; `s` is the state of the channels and the poller. -/
def removeChannel (D : Demultiplexer (ActiveChannel C) P X A) (d : Dispatcher T F C P X)
    (s : PollerState (ActiveChannel C) P) (c : ActiveChannel C) :
    Except Fault (PollerState (ActiveChannel C) P) := do
  if d.eventHandling then
    check (d.currentActiveChannel == some c || !d.activeChannels.contains c)
  D.removeChannel s c

/-- The call of an operation of a channel. -/
def call (D : Demultiplexer (ActiveChannel C) P X A) (d : Dispatcher T F C P X)
    (c : ActiveChannel C) : Channel.Op → Except Fault (PollerState (ActiveChannel C) P)
  | .change x => D.call d.pollers (c, .change x)
  | .remove => do
    check (d.pollers.channel c).isNoneEvent
    d.removeChannel D (d.pollers.set c { d.pollers.channel c with addedToLoop := false }) c

/-- The members after a step of the loop other than `poll`. -/
def advance (d : Dispatcher T F C P X) (x : EventLoop.Action T F C) (l : EventLoop T F C) :
    Dispatcher T F C P X :=
  match x with
  | .handleRead => { d with loop := l, currentActiveChannel := some .wakeupChannel }
  | .handleEvent c => { d with loop := l, currentActiveChannel := some (.channel c) }
  | .doPendingFunctors =>
    { d with loop := l, currentActiveChannel := none, eventHandling := false }
  | _ => { d with loop := l }

/-- The state after `poll`. -/
def polled (d : Dispatcher T F C P X) (p : Polled (ActiveChannel C) P X) : Dispatcher T F C P X :=
  { d with
    loop := { d.loop with pc := .handling none p.activeChannels }
    pollers := p.pollers
    wait := p.wait
    revents := p.revents
    activeChannels := p.activeChannels
    eventHandling := true }

/-- `loop` is called. -/
def enter (d : Dispatcher T F C P X) : Dispatcher T F C P X :=
  { d with loop := d.loop.enter }

inductive Step (D : Demultiplexer (ActiveChannel C) P X A) (d : Dispatcher T F C P X) :
    Action T F C A → Except Fault (Dispatcher T F C P X) → Prop
  | enter (hpc : d.loop.pc = .exited) : Step D d .enter (.ok d.enter)
  | loop {x l} (hpoll : ∀ active, x ≠ .poll active) (hstep : EventLoop.Step d.loop x (.ok l)) :
      Step D d (.loop x) (.ok (d.advance x l))
  | poll {a r} (hpc : d.loop.pc = .polling) (ha : D.answers d.pollers d.wait a)
      (hr : (D.poll d.pollers d.wait d.revents a).map d.polled = r) : Step D d (.poll a) r
  | call {c op r} (hpc : d.loop.pc.InCallback ∨ d.loop.pc = .exited)
      (hcall : d.loop.calling .loop = .returned)
      (hr : (d.call D c op).map (fun s => { d with pollers := s }) = r) : Step D d (.call c op) r

/-- The loop as constructed. `loop` may be called any number of times; operations on
its channels may be called before, between and within. -/
def machine (T F : Type) [DecidableEq T] (D : Demultiplexer (ActiveChannel C) P X A) :
    System (Dispatcher T F C P X) (Action T F C A) Fault where
  init d := d.loop.pc = .exited ∧ d.pollers = D.fresh ∧ d.wait = D.emptyWait ∧
    d.activeChannels = [] ∧ d.eventHandling = false ∧ d.currentActiveChannel = none
  step := Step D

/-- A loop as constructed, of which nobody has called anything. -/
def fresh (D : Demultiplexer (ActiveChannel C) P X A) : Dispatcher T F C P X where
  loop := ⟨false, false, [], 0, .exited, fun _ => .returned⟩
  pollers := D.fresh
  wait := D.emptyWait
  revents _ := 0
  activeChannels := []
  eventHandling := false
  currentActiveChannel := none

theorem fresh_init (D : Demultiplexer (ActiveChannel C) P X A) :
    (machine T F D).init (fresh D) := ⟨rfl, rfl, rfl, rfl, rfl, rfl⟩

end Dispatcher

end Dxian
