import Dxian.Lib.Transition
import Mathlib.Logic.Function.Basic

/-!
# The event loop and its functor queue

The loop thread polls, handles the active channels and runs the functors that
were queued, over and over; any thread may queue functors meanwhile. One `Step`
is one access to what the threads share: the push under `mutex_`, the write to
the wakeupfd, the read of it, the swap. Event callbacks and functors are the
environment's; while one of them runs, the loop thread may queue functors too.

## Main results

- `Step.conserves` — a step keeps the functors in the order in which they were queued
- `Step.invariant` — no step lets a queued functor go unnoticed
- `functors_fifo_and_noticed` — both, over whole runs
-/

namespace Dxian

open Transition

/-- A thread, seen from an `EventLoop`: `T` are the threads other than its own. -/
inductive Thread (T : Type*)
  | loop
  | other (t : T)
deriving DecidableEq

/-- `EventLoop::isInLoopThread`. -/
def Thread.isInLoopThread {T : Type*} : Thread T → Bool
  | loop => true
  | other _ => false

/-- An element of `activeChannels_`; `C` are the channels of the environment. -/
inductive ActiveChannel (C : Type*)
  | wakeupChannel
  | channel (c : C)
deriving DecidableEq

namespace EventLoop

/-- Where the loop thread is in `loop`: at `while (!quit_)`, in `poll`, in the
loop over the active channels (inside `handleEvent` of `current`, or between two
of them), before the swap in `doPendingFunctors`, in its loop over the functors
(inside `current`, or between two of them), or past the end of `loop`. -/
inductive Pc (F C : Type*)
  | testing
  | polling
  | handling (current : Option C) (activeChannels : List (ActiveChannel C))
  | swapping
  | running (current : Option F) (functors : List F)
  | exited

namespace Pc

variable {F C : Type*}

/-- The functors that `doPendingFunctors` has swapped out and not started. -/
def rest : Pc F C → List F
  | running _ functors => functors
  | _ => []

/-- Inside `doPendingFunctors`. -/
def inFunctors : Pc F C → Bool
  | swapping | running .. => true
  | _ => false

/-- Code of the environment is running on the loop thread. -/
def InCallback : Pc F C → Prop
  | handling (some _) _ | running (some _) _ => True
  | _ => False

instance : DecidablePred (@InCallback F C)
  | handling (some _) _ | running (some _) _ => isTrue trivial
  | handling none _ | running none _ | testing | polling | swapping | exited => isFalse id

/-- The next look at `pendingFunctors_` comes after the next `poll`. -/
def BeforePoll : Pc F C → Prop
  | testing | polling | running .. => True
  | _ => False

end Pc

/-- What a thread still owes: the write to the wakeupfd of its `queueInLoop` or `quit`. -/
inductive Call
  | returned
  | queueInLoop
  | quit
deriving DecidableEq

end EventLoop

/-- The members of `class EventLoop` that the threads share, the counter of the
eventfd `wakeupFd_`, and where each thread is. -/
structure EventLoop (T F C : Type*) where
  quit_ : Bool
  callingPendingFunctors : Bool
  pendingFunctors : List F
  wakeupFd : ℕ
  pc : EventLoop.Pc F C
  calling : Thread T → EventLoop.Call

namespace EventLoop

variable {T F C : Type*} [DecidableEq T]

/-- `EventLoop::wakeup`. -/
def wakeup (l : EventLoop T F C) (t : Thread T) : EventLoop T F C :=
  { l with wakeupFd := l.wakeupFd + 1, calling := Function.update l.calling t .returned }

/-- `EventLoop::queueInLoop`, up to the write to the wakeupfd if there is one. -/
def queueInLoop (l : EventLoop T F C) (t : Thread T) (cb : F) : EventLoop T F C :=
  { l with
    pendingFunctors := l.pendingFunctors ++ [cb]
    calling := if !t.isInLoopThread || l.callingPendingFunctors
      then Function.update l.calling t .queueInLoop else l.calling }

/-- `EventLoop::quit`, up to the write to the wakeupfd if there is one. -/
def quit (l : EventLoop T F C) (t : Thread T) : EventLoop T F C :=
  { l with
    quit_ := true
    calling := if !t.isInLoopThread then Function.update l.calling t .quit else l.calling }

/-- The start of `EventLoop::loop`. -/
def enter (l : EventLoop T F C) : EventLoop T F C := { l with quit_ := false, pc := .testing }

/-- `EventLoop::handleRead`. -/
def handleRead (l : EventLoop T F C) : EventLoop T F C := { l with wakeupFd := 0 }

inductive Action (T F C : Type*)
  | queueInLoop (t : Thread T) (cb : F)
  | quit (t : Thread T)
  | wakeup (t : Thread T)
  | test
  | poll (activeChannels : List (ActiveChannel C))
  | handleRead
  | handleEvent (c : C)
  | finishEvent
  | doPendingFunctors
  | swap
  | runFunctor (functor : F)
  | finishFunctor
  | finishFunctors

/-- The thread that takes the step. -/
def Action.thread : Action T F C → Thread T
  | queueInLoop t _ | quit t | wakeup t => t
  | _ => .loop

/-- One step of some thread. `poll` may report any channels: it also returns when
its time is up. -/
inductive Step (l : EventLoop T F C) : Action T F C → Except Empty (EventLoop T F C) → Prop
  | queueInLoop {t cb} (hcall : l.calling t = .returned) (hpc : t = .loop → l.pc.InCallback) :
      Step l (.queueInLoop t cb) (.ok (l.queueInLoop t cb))
  | quit {t} (hcall : l.calling t = .returned) (hpc : t = .loop → l.pc.InCallback) :
      Step l (.quit t) (.ok (l.quit t))
  | wakeup {t} (hcall : l.calling t ≠ .returned) : Step l (.wakeup t) (.ok (l.wakeup t))
  | test (hpc : l.pc = .testing) :
      Step l .test (.ok { l with pc := if l.quit_ then .exited else .polling })
  | poll {active} (hpc : l.pc = .polling) :
      Step l (.poll active) (.ok { l with pc := .handling none active })
  | handleRead {active} (hpc : l.pc = .handling none (.wakeupChannel :: active)) :
      Step l .handleRead (.ok { l.handleRead with pc := .handling none active })
  | handleEvent {c active} (hpc : l.pc = .handling none (.channel c :: active)) :
      Step l (.handleEvent c) (.ok { l with pc := .handling (some c) active })
  | finishEvent {c active} (hpc : l.pc = .handling (some c) active)
      (hcall : l.calling .loop = .returned) :
      Step l .finishEvent (.ok { l with pc := .handling none active })
  | doPendingFunctors (hpc : l.pc = .handling none []) :
      Step l .doPendingFunctors
        (.ok { l with callingPendingFunctors := true, pc := .swapping })
  | swap (hpc : l.pc = .swapping) :
      Step l .swap (.ok { l with pendingFunctors := [], pc := .running none l.pendingFunctors })
  | runFunctor {f functors} (hpc : l.pc = .running none (f :: functors)) :
      Step l (.runFunctor f) (.ok { l with pc := .running (some f) functors })
  | finishFunctor {f functors} (hpc : l.pc = .running (some f) functors)
      (hcall : l.calling .loop = .returned) :
      Step l .finishFunctor (.ok { l with pc := .running none functors })
  | finishFunctors (hpc : l.pc = .running none []) :
      Step l .finishFunctors (.ok { l with callingPendingFunctors := false, pc := .testing })

/-- The loop from the start of `loop` on, with no functor queued. The counter of
the wakeupfd and the calls of the other threads are arbitrary. -/
def machine (T F C : Type*) [DecidableEq T] : System (EventLoop T F C) (Action T F C) Empty where
  init l := l.pc = .testing ∧ l.quit_ = false ∧ l.callingPendingFunctors = false ∧
    l.pendingFunctors = [] ∧ l.calling .loop = .returned
  step := Step

/-- The successor of a state, where the step is possible. -/
def next [DecidableEq F] [DecidableEq C] (l : EventLoop T F C) :
    Action T F C → Option (EventLoop T F C)
  | .queueInLoop t cb =>
    if l.calling t = .returned ∧ (t = .loop → l.pc.InCallback) then some (l.queueInLoop t cb)
    else none
  | .quit t =>
    if l.calling t = .returned ∧ (t = .loop → l.pc.InCallback) then some (l.quit t) else none
  | .wakeup t => if l.calling t ≠ .returned then some (l.wakeup t) else none
  | .test =>
    match l.pc with
    | .testing => some { l with pc := if l.quit_ then .exited else .polling }
    | _ => none
  | .poll active =>
    match l.pc with
    | .polling => some { l with pc := .handling none active }
    | _ => none
  | .handleRead =>
    match l.pc with
    | .handling none (.wakeupChannel :: active) =>
      some { l.handleRead with pc := .handling none active }
    | _ => none
  | .handleEvent c =>
    match l.pc with
    | .handling none (.channel d :: active) =>
      if d = c then some { l with pc := .handling (some c) active } else none
    | _ => none
  | .finishEvent =>
    match l.pc with
    | .handling (some _) active =>
      if l.calling .loop = .returned then some { l with pc := .handling none active } else none
    | _ => none
  | .doPendingFunctors =>
    match l.pc with
    | .handling none [] => some { l with callingPendingFunctors := true, pc := .swapping }
    | _ => none
  | .swap =>
    match l.pc with
    | .swapping => some { l with pendingFunctors := [], pc := .running none l.pendingFunctors }
    | _ => none
  | .runFunctor f =>
    match l.pc with
    | .running none (g :: functors) =>
      if g = f then some { l with pc := .running (some f) functors } else none
    | _ => none
  | .finishFunctor =>
    match l.pc with
    | .running (some _) functors =>
      if l.calling .loop = .returned then some { l with pc := .running none functors } else none
    | _ => none
  | .finishFunctors =>
    match l.pc with
    | .running none [] => some { l with callingPendingFunctors := false, pc := .testing }
    | _ => none

theorem step_of_next [DecidableEq F] [DecidableEq C] {l m : EventLoop T F C} {a : Action T F C}
    (h : next l a = some m) : Step l a (.ok m) := by
  cases a with
  | queueInLoop t cb =>
    obtain ⟨⟨hcall, hpc⟩, ⟨⟩⟩ := Option.ite_none_right_eq_some.mp h
    exact .queueInLoop hcall hpc
  | quit t =>
    obtain ⟨⟨hcall, hpc⟩, ⟨⟩⟩ := Option.ite_none_right_eq_some.mp h
    exact .quit hcall hpc
  | wakeup t =>
    obtain ⟨hcall, ⟨⟩⟩ := Option.ite_none_right_eq_some.mp h
    exact .wakeup hcall
  | test | poll active | doPendingFunctors | swap | finishFunctors | handleRead =>
    simp only [next] at h
    split at h
    · next hpc => cases h; constructor; exact hpc
    · cases h
  | finishEvent | finishFunctor =>
    simp only [next] at h
    split at h
    · next hpc =>
      obtain ⟨hcall, ⟨⟩⟩ := Option.ite_none_right_eq_some.mp h
      constructor <;> assumption
    · cases h
  | handleEvent c | runFunctor f =>
    simp only [next] at h
    split at h
    · next hpc =>
      obtain ⟨rfl, ⟨⟩⟩ := Option.ite_none_right_eq_some.mp h
      constructor
      exact hpc
    · cases h

/-- Only `loop` itself takes a `quit` back. -/
theorem Step.quit_ {l m : EventLoop T F C} {a : Action T F C} (h : Step l a (.ok m))
    (hq : l.quit_ = true) : m.quit_ = true := by
  cases h <;> first | exact hq | rfl

/-! ## Nothing is lost, duplicated or reordered -/

/-- The functors that have been queued and not started. -/
def outstanding (l : EventLoop T F C) : List F := l.pc.rest ++ l.pendingFunctors

def Action.pushed : Action T F C → List F
  | queueInLoop _ cb => [cb]
  | _ => []

def Action.ran : Action T F C → List F
  | runFunctor f => [f]
  | _ => []

/-- **Step lemma** for the order of the functors. -/
theorem Step.conserves {l m : EventLoop T F C} {a : Action T F C} (h : Step l a (.ok m)) :
    l.outstanding ++ a.pushed = a.ran ++ m.outstanding := by
  cases h with
  | queueInLoop hcall hpc =>
    simp [outstanding, Action.pushed, Action.ran, EventLoop.queueInLoop]
  | quit hcall hpc => simp [outstanding, Action.pushed, Action.ran, EventLoop.quit]
  | wakeup hcall => simp [outstanding, Action.pushed, Action.ran, EventLoop.wakeup]
  | test hpc =>
    cases hq : l.quit_ <;> simp [outstanding, Action.pushed, Action.ran, Pc.rest, hpc]
  | _ hpc => simp [outstanding, Action.pushed, Action.ran, Pc.rest, EventLoop.handleRead, hpc]

/-! ## Nothing goes unnoticed -/

/-- `poll` will not wait with functors queued: the counter of the wakeupfd is
positive, or some thread is about to make it so. -/
def Noticed (l : EventLoop T F C) : Prop :=
  l.pendingFunctors = [] ∨ 0 < l.wakeupFd ∨ ∃ t, l.calling t = .queueInLoop

/-- The loop thread owes a write only inside a functor, and functors that are
queued after the swap are noticed. -/
structure Invariant (l : EventLoop T F C) : Prop where
  flag : l.callingPendingFunctors = l.pc.inFunctors
  inFunctor : l.calling .loop ≠ .returned → ∃ f functors, l.pc = .running (some f) functors
  noticed : l.pc.BeforePoll → l.Noticed

theorem invariant_init {l : EventLoop T F C} (h : (machine T F C).init l) : Invariant l := by
  obtain ⟨hpc, -, hflag, hpending, hloop⟩ := h
  exact ⟨by rw [hflag, hpc]; rfl, fun hcall => absurd hloop hcall, fun _ => .inl hpending⟩

/-- A push is followed by a write unless the loop thread is about to swap. -/
theorem Invariant.queueInLoop {l : EventLoop T F C} (inv : Invariant l) {t : Thread T} (cb : F)
    (hpc : t = .loop → l.pc.InCallback) : Invariant (l.queueInLoop t cb) := by
  by_cases howes : (!t.isInLoopThread || l.callingPendingFunctors) = true
  · have hcalling : (l.queueInLoop t cb).calling = Function.update l.calling t .queueInLoop :=
      if_pos howes
    refine ⟨inv.flag, fun hne => ?_, fun _ => .inr (.inr ⟨t, ?_⟩)⟩
    · cases t with
      | other t =>
        rw [hcalling, Function.update_of_ne (by simp)] at hne
        exact inv.inFunctor hne
      | loop =>
        -- the flag is set, so this callback is a functor
        have hin : l.pc.inFunctors = true := by
          rw [← inv.flag]
          simpa [Thread.isInLoopThread] using howes
        have hcb := hpc rfl
        show ∃ f functors, l.pc = .running (some f) functors
        match hp : l.pc with
        | .running (some f) functors => exact ⟨f, functors, rfl⟩
        | .running none _ | .testing | .polling | .swapping | .exited =>
          rw [hp] at hcb
          exact hcb.elim
        | .handling _ _ => simp [hp, Pc.inFunctors] at hin
    · rw [hcalling, Function.update_self]
  · have hcalling : (l.queueInLoop t cb).calling = l.calling := if_neg howes
    refine ⟨inv.flag, fun hne => inv.inFunctor (hcalling ▸ hne), fun hbefore => ?_⟩
    -- no write is owed: the loop thread is in an event callback, with the swap still to come
    have hloop : t = .loop ∧ l.pc.inFunctors = false := by
      rw [← inv.flag]
      cases t with
      | loop => simpa [Thread.isInLoopThread] using howes
      | other t => simp [Thread.isInLoopThread] at howes
    have hcb := hpc hloop.1
    have hout := hloop.2
    replace hbefore : l.pc.BeforePoll := hbefore
    match hp : l.pc with
    | .running _ _ => simp [hp, Pc.inFunctors] at hout
    | .handling _ _ => simp [hp, Pc.BeforePoll] at hbefore
    | .testing | .polling | .swapping | .exited =>
      rw [hp] at hcb
      exact hcb.elim

/-- A thread that owes no write may start to owe the one of `quit`. -/
theorem Invariant.quit {l : EventLoop T F C} (inv : Invariant l) {t : Thread T}
    (hcall : l.calling t = .returned) : Invariant (l.quit t) := by
  cases t with
  | loop => exact ⟨inv.flag, inv.inFunctor, inv.noticed⟩
  | other t =>
    refine ⟨inv.flag, fun hne => inv.inFunctor ?_, fun hbefore => ?_⟩
    · simpa [EventLoop.quit, Thread.isInLoopThread] using hne
    · refine (inv.noticed hbefore).imp_right (Or.imp_right ?_)
      intro ⟨u, hu⟩
      have hne : u ≠ .other t := by
        rintro rfl
        rw [hcall] at hu
        cases hu
      refine ⟨u, ?_⟩
      rw [show (l.quit (.other t)).calling = Function.update l.calling (.other t) .quit from rfl,
        Function.update_of_ne hne, hu]

theorem Invariant.wakeup {l : EventLoop T F C} (inv : Invariant l) (t : Thread T) :
    Invariant (l.wakeup t) := by
  refine ⟨inv.flag, fun hne => inv.inFunctor fun heq => hne ?_, fun _ => .inr (.inl ?_)⟩
  · show Function.update l.calling t .returned .loop = .returned
    by_cases ht : Thread.loop = t
    · rw [← ht, Function.update_self]
    · rw [Function.update_of_ne ht, heq]
  · exact Nat.succ_pos _

/-- **Step lemma** for the wakeups. -/
theorem Step.invariant {l m : EventLoop T F C} {a : Action T F C} (h : Step l a (.ok m))
    (inv : Invariant l) : Invariant m := by
  have hout : (∀ f functors, l.pc ≠ .running (some f) functors) → l.calling .loop = .returned := by
    intro hpc
    by_contra hne
    obtain ⟨f, functors, hf⟩ := inv.inFunctor hne
    exact hpc f functors hf
  have hflag := inv.flag
  cases h with
  | queueInLoop hcall hpc => exact inv.queueInLoop _ hpc
  | quit hcall hpc => exact inv.quit hcall
  | wakeup hcall => exact inv.wakeup _
  | test hpc =>
    have hloop := hout (by simp [hpc])
    have hnoticed := inv.noticed (by rw [hpc]; trivial)
    rw [hpc] at hflag
    cases hq : l.quit_ with
    | true => exact ⟨hflag, fun hne => absurd hloop hne, fun hb => hb.elim⟩
    | false => exact ⟨hflag, fun hne => absurd hloop hne, fun _ => hnoticed⟩
  | poll hpc =>
    rw [hpc] at hflag
    exact ⟨hflag, fun hne => absurd (hout (by simp [hpc])) hne, fun hb => hb.elim⟩
  | handleRead hpc =>
    rw [hpc] at hflag
    exact ⟨hflag, fun hne => absurd (hout (by simp [hpc])) hne, fun hb => hb.elim⟩
  | handleEvent hpc =>
    rw [hpc] at hflag
    exact ⟨hflag, fun hne => absurd (hout (by simp [hpc])) hne, fun hb => hb.elim⟩
  | finishEvent hpc hcall =>
    rw [hpc] at hflag
    exact ⟨hflag, fun hne => absurd hcall hne, fun hb => hb.elim⟩
  | doPendingFunctors hpc =>
    exact ⟨rfl, fun hne => absurd (hout (by simp [hpc])) hne, fun hb => hb.elim⟩
  | swap hpc =>
    rw [hpc] at hflag
    exact ⟨hflag, fun hne => absurd (hout (by simp [hpc])) hne, fun _ => .inl rfl⟩
  | @runFunctor f functors hpc =>
    have hnoticed := inv.noticed (by rw [hpc]; trivial)
    rw [hpc] at hflag
    exact ⟨hflag, fun _ => ⟨f, functors, rfl⟩, fun _ => hnoticed⟩
  | finishFunctor hpc hcall =>
    have hnoticed := inv.noticed (by rw [hpc]; trivial)
    rw [hpc] at hflag
    exact ⟨hflag, fun hne => absurd hcall hne, fun _ => hnoticed⟩
  | finishFunctors hpc =>
    have hnoticed := inv.noticed (by rw [hpc]; trivial)
    exact ⟨rfl, fun hne => absurd (hout (by simp [hpc])) hne, fun _ => hnoticed⟩

/-- **Run lemma.** -/
theorem reachable_invariant {l : EventLoop T F C} (h : (machine T F C).Reachable l) :
    Invariant l :=
  h.invariant invariant_init fun inv hstep => Step.invariant hstep inv

/-- **The functor queue.** In every run from the start of `loop`: the functors
that were run, the rest of those swapped out and the pending ones are together
the functors that were queued, in this order; and while the loop thread enters
`poll` or waits in it with functors pending, the wakeupfd is readable or another
thread is between its push and its write. -/
theorem functors_fifo_and_noticed {l₀ l : EventLoop T F C} {w : List (Action T F C)}
    (h₀ : (machine T F C).init l₀) (h : (machine T F C).Run l₀ w l) :
    w.flatMap Action.ran ++ l.pc.rest ++ l.pendingFunctors = w.flatMap Action.pushed ∧
    (l.pc = .testing ∨ l.pc = .polling → l.pendingFunctors ≠ [] →
      0 < l.wakeupFd ∨ ∃ t, l.calling (.other t) = .queueInLoop) := by
  have inv := reachable_invariant ((System.Reachable.of_init h₀).run h)
  constructor
  · have hempty : l₀.outstanding = [] := by simp [outstanding, h₀.1, h₀.2.2.2.1, Pc.rest]
    have hfifo := h.conserves Step.conserves
    rw [hempty, List.nil_append] at hfifo
    rw [hfifo, List.append_assoc]
    rfl
  · intro hpc hpending
    have hbefore : l.pc.BeforePoll := by
      rcases hpc with hpc | hpc <;> rw [hpc] <;> trivial
    rcases inv.noticed hbefore with hnil | hpos | ⟨t, ht⟩
    · exact absurd hnil hpending
    · exact .inl hpos
    · cases t with
      | other t => exact .inr ⟨t, ht⟩
      | loop =>
        obtain ⟨f, functors, hrun⟩ := inv.inFunctor (by rw [ht]; decide)
        rcases hpc with hpc | hpc <;> cases hpc.symm.trans hrun

/-- A thread queues a functor while the loop thread enters `poll`. -/
theorem functors_fifo_and_noticed_between_push_and_write :
    ∃ l : EventLoop Unit ℕ Unit,
      (machine Unit ℕ Unit).Run ⟨false, false, [], 0, .testing, fun _ => .returned⟩
        [.test, .queueInLoop (.other ()) 7] l ∧
      l.pendingFunctors ≠ [] ∧
      (0 < l.wakeupFd ∨ ∃ t, l.calling (.other t) = .queueInLoop) := by
  have hrun : (machine Unit ℕ Unit).Run ⟨false, false, [], 0, .testing, fun _ => .returned⟩
      [.test, .queueInLoop (.other ()) 7] _ :=
    .cons (.test rfl) (.single (.queueInLoop rfl (by simp)))
  exact ⟨_, hrun, by simp [queueInLoop],
    (functors_fifo_and_noticed ⟨rfl, rfl, rfl, rfl, rfl⟩ hrun).2 (.inr rfl) (by simp [queueInLoop])⟩

end EventLoop

end Dxian
