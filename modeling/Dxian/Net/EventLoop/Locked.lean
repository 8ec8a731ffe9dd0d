import Dxian.Base.Mutex
import Dxian.Net.EventLoop

/-!
# The functor queue, one access after the other

`mutex_` of an `EventLoop` guards `pendingFunctors_`. The functions that lock it are taken
apart here: the lock, `assignHolder`, the access, `unassignHolder` and the unlock are steps of
their own, and `queueInLoop` looks at `callingPendingFunctors_` after it has unlocked. No
function waits in the mutex.

## Main results

- `Step.simulates` — in `EventLoop` each of these functions is one step, where it has its access
- `pendingFunctors_guarded` — refinement, mutual exclusion and progress
-/

namespace Dxian

open Transition

/-- The blocks that lock `mutex_`: of `queueInLoop`, `doPendingFunctors` and `queueSize`. -/
inductive Section (F : Type)
  | push (cb : F)
  | swap
  | size

/-- The blocks wait for nothing and notify nobody. -/
def sections (F : Type) : Monitor PUnit (Section F) Fault where
  init _ := True
  busy _ := false
  update _ _ := .ok (⟨⟩, false)

/-- A loop, its `mutex_` and where each thread is. A thread has `pushed` from the access of
`queueInLoop` to the test that decides on the wakeup. -/
structure LockedLoop (T F C : Type) where
  loop : EventLoop T F C
  guard : Guarded (Thread T) PUnit (Section F)
  pushed : Thread T → Bool

namespace EventLoop

variable {T F C : Type} [DecidableEq T] {l m : EventLoop T F C} {x : Action T F C}

/-- A step is about the calls of one thread. -/
theorem Step.calling_of_ne (h : Step l x (.ok m)) {t : Thread T} (ht : t ≠ x.thread) :
    m.calling t = l.calling t := by
  cases h with
  | queueInLoop =>
    show (if _ then Function.update l.calling _ _ else _) t = _
    split
    · exact Function.update_of_ne ht ..
    · rfl
  | quit =>
    show (if _ then Function.update l.calling _ _ else _) t = _
    split
    · exact Function.update_of_ne ht ..
    · rfl
  | wakeup => exact Function.update_of_ne ht ..
  | _ => rfl

/-- The other threads do not move the loop thread. -/
theorem Step.of_other (h : Step l x (.ok m)) (ht : x.thread ≠ .loop) :
    m.pc = l.pc ∧ m.callingPendingFunctors = l.callingPendingFunctors := by
  cases h with
  | queueInLoop | quit | wakeup => exact ⟨rfl, rfl⟩
  | _ => exact absurd rfl ht

/-- A step does not look at the calls of the other threads. -/
theorem Step.recall (h : Step l x (.ok m)) (hx : ∀ t cb, x ≠ .queueInLoop t cb)
    {f : Thread T → Call} (hf : f x.thread = l.calling x.thread) :
    Step { l with calling := f } x
      (.ok { m with calling := Function.update f x.thread (m.calling x.thread) }) := by
  have hloop : x.thread = .loop → Function.update f .loop (l.calling .loop) = f := by
    intro ht
    rw [← ht, ← hf, Function.update_eq_self]
  cases h with
  | queueInLoop => exact absurd rfl (hx _ _)
  | @quit t hcall hpc =>
    have heq : Function.update f t ((l.quit t).calling t) =
        ({ l with calling := f }.quit t : EventLoop T F C).calling := by
      show Function.update f t ((if _ then Function.update l.calling t .quit else l.calling) t) =
        if _ then Function.update f t .quit else f
      split
      · rw [Function.update_self]
      · rw [show l.calling t = f t from hf.symm, Function.update_eq_self]
    rw [show (Action.quit t : Action T F C).thread = t from rfl, heq]
    exact .quit (hf.trans hcall) hpc
  | @wakeup t hcall =>
    have heq : Function.update f t ((l.wakeup t).calling t) = Function.update f t .returned :=
      congrArg (Function.update f t) (Function.update_self ..)
    rw [show (Action.wakeup t : Action T F C).thread = t from rfl, heq]
    exact .wakeup (fun h => hcall (hf.symm.trans h))
  | finishEvent hpc hcall =>
    refine cast ?_ (Step.finishEvent (l := { l with calling := f }) hpc (hf.trans hcall))
    rw [show (Action.finishEvent : Action T F C).thread = .loop from rfl, hloop rfl]
  | finishFunctor hpc hcall =>
    refine cast ?_ (Step.finishFunctor (l := { l with calling := f }) hpc (hf.trans hcall))
    rw [show (Action.finishFunctor : Action T F C).thread = .loop from rfl, hloop rfl]
  | _ hpc =>
    have heq := hloop rfl
    simp only [Action.thread, EventLoop.handleRead, heq]
    constructor
    exact hpc

end EventLoop

namespace LockedLoop

variable {T F C : Type} [DecidableEq T]

/-- The thread is in none of the functions that lock. -/
def Idle (s : LockedLoop T F C) (t : Thread T) : Prop :=
  s.guard.pc t = .outside ∧ s.pushed t = false

/-- Where code of the environment may call the loop. -/
def MayCall (l : EventLoop T F C) (t : Thread T) : Prop :=
  l.calling t = .returned ∧ (t = .loop → l.pc.InCallback)

/-- The thread has entered the block and is about to lock. -/
def lock (s : LockedLoop T F C) (t : Thread T) (x : Section F) :
    Guarded (Thread T) PUnit (Section F) :=
  s.guard.move t (.locking (.update x))

/-- The access is over. -/
def leave (s : LockedLoop T F C) (t : Thread T) (x : Section F) :
    Guarded (Thread T) PUnit (Section F) :=
  s.guard.move t (.notifying x ⟨⟩ false)

/-- What `queueInLoop` asks after the unlock. -/
def wakes (l : EventLoop T F C) (t : Thread T) : Bool :=
  !t.isInLoopThread || l.callingPendingFunctors

/-- The end of `queueInLoop`, up to the write to the wakeupfd if there is one. -/
def unlocked (l : EventLoop T F C) (t : Thread T) : EventLoop T F C :=
  { l with calling := if wakes l t then Function.update l.calling t .queueInLoop else l.calling }

/-- `call` enters `queueInLoop` or `queueSize`, `mutex` is a step on `mutex_`; `push`, `swap`
and `size` are the accesses to `pendingFunctors_`. -/
inductive Action (T F C : Type)
  | call (t : Thread T) (x : Section F)
  | mutex (a : Guarded.Action (Thread T) (Section F))
  | push (t : Thread T) (cb : F)
  | swap
  | size (t : Thread T) (n : ℕ)
  | decide (t : Thread T)
  | step (x : EventLoop.Action T F C)

/-- A step on `mutex_`: neither a call nor an access. -/
def OnMutex : Guarded.Action (Thread T) (Section F) → Prop
  | .call .. | .update _ => False
  | _ => True

/-- The steps of the loop that are none of the queue. -/
def Plain : EventLoop.Action T F C → Prop
  | .queueInLoop .. | .swap | .doPendingFunctors => False
  | _ => True

inductive Step (ids : ThreadIds (Thread T)) (s : LockedLoop T F C) :
    Action T F C → Except Fault (LockedLoop T F C) → Prop
  | call {t x} (hidle : s.Idle t) (hcall : MayCall s.loop t) (hx : x ≠ .swap) :
      Step ids s (.call t x) (.ok { s with guard := s.lock t x })
  | doPendingFunctors {l} (hidle : s.Idle .loop)
      (h : EventLoop.Step s.loop .doPendingFunctors (.ok l)) :
      Step ids s (.step .doPendingFunctors) (.ok { s with loop := l, guard := s.lock .loop .swap })
  | mutex {a g r} (ha : OnMutex a) (h : Guarded.Step ids (sections F) s.guard a g)
      (hr : g.map (fun g => { s with guard := g }) = r) : Step ids s (.mutex a) r
  | push {t cb} (hpc : s.guard.pc t = .updating (.push cb)) : Step ids s (.push t cb) (.ok
      { loop := { s.loop with pendingFunctors := s.loop.pendingFunctors ++ [cb] }
        guard := s.leave t (.push cb)
        pushed := Function.update s.pushed t true })
  | swap (hpc : s.guard.pc .loop = .updating .swap) : Step ids s .swap (.ok
      { s with
        loop := { s.loop with pendingFunctors := [], pc := .running none s.loop.pendingFunctors }
        guard := s.leave .loop .swap })
  | size {t} (hpc : s.guard.pc t = .updating .size) :
      Step ids s (.size t s.loop.pendingFunctors.length) (.ok { s with guard := s.leave t .size })
  | decide {t} (hpc : s.guard.pc t = .outside) (hpushed : s.pushed t = true) :
      Step ids s (.decide t) (.ok
        { s with loop := unlocked s.loop t, pushed := Function.update s.pushed t false })
  | step {x l} (hx : Plain x) (hidle : s.Idle x.thread) (h : EventLoop.Step s.loop x (.ok l)) :
      Step ids s (.step x) (.ok { s with loop := l })

/-- The loop from the start of `loop` on; nobody is inside of the mutex. -/
def machine (C : Type) (ids : ThreadIds (Thread T)) :
    System (LockedLoop T F C) (Action T F C) Fault where
  init s := (EventLoop.machine T F C).init s.loop ∧
    (Guarded.machine ids (sections F)).init s.guard ∧ ∀ t, s.pushed t = false
  step := Step ids

/-! ## Where the threads are -/

/-- The block that a thread has entered and whose access is still to come. -/
def next : Guarded.Pc PUnit (Section F) → Option (Section F)
  | .locking (.update x) | .assigning (.update x) | .updating x => some x
  | _ => none

/-- The positions in a block. -/
def InBlock : Guarded.Pc PUnit (Section F) → Prop
  | .outside | .locking (.update _) | .assigning (.update _) | .updating _ | .notifying _ _ false
  | .unassigning | .unlocking => True
  | _ => False

variable {ids : ThreadIds (Thread T)} {s s' : LockedLoop T F C} {a : Action T F C}

/-- What a thread needs for the access of its block. -/
def Ready (l : EventLoop T F C) (t : Thread T) : Section F → Prop
  | .swap => t = .loop ∧ l.pc = .swapping
  | .push _ | .size => MayCall l t

structure Invariant (s : LockedLoop T F C) : Prop where
  inBlock : ∀ t, InBlock (s.guard.pc t)
  ready : ∀ t x, next (s.guard.pc t) = some x → Ready s.loop t x
  pushed : ∀ t, s.pushed t = true → next (s.guard.pc t) = none

/-- What a step of the thread `t` has to leave as it should be. -/
theorem Invariant.move (inv : Invariant s) (t : Thread T) {p : Guarded.Pc PUnit (Section F)}
    (hg : s'.guard.pc = Function.update s.guard.pc t p) (hp : InBlock p)
    (hcalling : ∀ u, u ≠ t → s'.loop.calling u = s.loop.calling u)
    (hpc : t ≠ .loop → s'.loop.pc = s.loop.pc)
    (hready : ∀ x, next p = some x → Ready s'.loop t x)
    (hothers : ∀ u, u ≠ t → s'.pushed u = s.pushed u)
    (hpushed : s'.pushed t = true → next p = none) : Invariant s' where
  inBlock u := by
    rw [hg]
    by_cases hu : u = t
    · rwa [hu, Function.update_self]
    · rw [Function.update_of_ne hu]
      exact inv.inBlock u
  ready u x hx := by
    rw [hg] at hx
    by_cases hu : u = t
    · rw [hu, Function.update_self] at hx
      exact hu ▸ hready x hx
    · rw [Function.update_of_ne hu] at hx
      have hbefore := inv.ready u x hx
      have hloop : u = .loop → s'.loop.pc = s.loop.pc :=
        fun h => hpc fun ht => hu (h.trans ht.symm)
      cases x with
      | swap => exact ⟨hbefore.1, (hloop hbefore.1).trans hbefore.2⟩
      | push | size =>
        exact ⟨(hcalling u hu).trans hbefore.1, fun h => hloop h ▸ hbefore.2 h⟩
  pushed u hu := by
    rw [hg]
    by_cases ht : u = t
    · subst ht
      rw [Function.update_self]
      exact hpushed hu
    · rw [Function.update_of_ne ht]
      exact inv.pushed u ((hothers u ht).symm.trans hu)

/-- A step on the mutex keeps the block that it is in. -/
theorem next_of_mutex {x : Guarded.Action (Thread T) (Section F)}
    {g : Guarded (Thread T) PUnit (Section F)} (hx : OnMutex x)
    (hblock : ∀ t, InBlock (s.guard.pc t))
    (h : Guarded.Step ids (sections F) s.guard x (.ok g)) :
    ∃ t p, g.pc = Function.update s.guard.pc t p ∧ InBlock p ∧
      next p = next (s.guard.pc t) ∧ s.guard.pc t ≠ .outside := by
  cases h with
  | call | update => exact hx.elim
  | @lock t y hpc =>
    have hb := hblock t
    rw [hpc] at hb
    cases y with
    | wait => exact hb.elim
    | update y => exact ⟨t, _, rfl, trivial, by rw [hpc]; rfl, by rw [hpc]; simp⟩
  | @assignHolder t y hpc =>
    have hb := hblock t
    rw [hpc] at hb
    cases y with
    | wait => exact hb.elim
    | update y => exact ⟨t, _, rfl, trivial, by rw [hpc]; rfl, by rw [hpc]; simp⟩
  | @notify t y old broadcast hpc =>
    have hb := hblock t
    rw [hpc] at hb
    cases broadcast with
    | false => exact ⟨t, _, rfl, trivial, by rw [hpc]; rfl, by rw [hpc]; simp⟩
    | true => exact hb.elim
  | @unassignHolder t hpc => exact ⟨t, _, rfl, trivial, by rw [hpc]; rfl, by rw [hpc]; simp⟩
  | @unlock t _ hpc hr =>
    obtain ⟨_, -, rfl⟩ := exists_of_map_eq_ok hr
    exact ⟨t, _, rfl, trivial, by rw [hpc]; rfl, by rw [hpc]; simp⟩
  | @test t hpc | @release t hpc | @wake t hpc | @wakeSpuriously t hpc | @relock t hpc
  | @reassign t hpc | @sleep t _ hpc =>
    have hb := hblock t
    rw [hpc] at hb
    exact hb.elim

/-- **Step lemma.** -/
theorem Invariant.step (inv : Invariant s) (h : Step ids s a (.ok s')) : Invariant s' := by
  have hsame : ∀ t, s.guard.pc = Function.update s.guard.pc t (s.guard.pc t) :=
    fun t => (Function.update_eq_self ..).symm
  cases h with
  | @call t x hidle hcall hx =>
    refine inv.move t rfl trivial (fun _ _ => rfl) (fun _ => rfl) (fun y hy => ?_)
      (fun _ _ => rfl) (fun hpushed => ?_)
    · cases hy
      cases x with
      | swap => exact absurd rfl hx
      | push | size => exact hcall
    · cases hidle.2.symm.trans hpushed
  | doPendingFunctors hidle hstep =>
    refine inv.move .loop rfl trivial (fun u hu => hstep.calling_of_ne hu)
      (fun h => absurd rfl h) (fun y hy => ?_) (fun _ _ => rfl) (fun hpushed => ?_)
    · cases hy
      cases hstep
      exact ⟨rfl, rfl⟩
    · cases hidle.2.symm.trans hpushed
  | mutex ha hstep hr =>
    obtain ⟨g, rfl, rfl⟩ := exists_of_map_eq_ok hr
    obtain ⟨t, p, hg, hp, hnext, -⟩ := next_of_mutex ha inv.inBlock hstep
    exact inv.move t hg hp (fun _ _ => rfl) (fun _ => rfl)
      (fun x hx => inv.ready t x (hnext.symm.trans hx)) (fun _ _ => rfl)
      (fun hpushed => hnext.trans (inv.pushed t hpushed))
  | @push t cb hpc =>
    exact inv.move t rfl trivial (fun _ _ => rfl) (fun _ => rfl) nofun
      (fun u hu => Function.update_of_ne hu ..) (fun _ => rfl)
  | swap hpc =>
    exact inv.move .loop rfl trivial (fun _ _ => rfl) (fun h => absurd rfl h) nofun
      (fun _ _ => rfl) (fun _ => rfl)
  | @size t hpc =>
    exact inv.move t rfl trivial (fun _ _ => rfl) (fun _ => rfl) nofun (fun _ _ => rfl)
      (fun _ => rfl)
  | @decide t hpc hpushed =>
    refine inv.move t (hsame t) (inv.inBlock t) (fun u hu => ?_) (fun _ => rfl) (fun x hx => ?_)
      (fun u hu => Function.update_of_ne hu ..) (fun _ => by rw [hpc]; rfl)
    · show (if wakes s.loop t then Function.update s.loop.calling t _ else _) u = _
      split
      · exact Function.update_of_ne hu ..
      · rfl
    · rw [hpc] at hx
      cases hx
  | @step x l hx hidle hstep =>
    refine inv.move x.thread (hsame _) (inv.inBlock _) (fun u hu => hstep.calling_of_ne hu)
      (fun h => (hstep.of_other h).1) (fun y hy => ?_) (fun _ _ => rfl)
      (fun _ => by rw [hidle.1]; rfl)
    rw [hidle.1] at hy
    cases hy

theorem invariant_init (h : (machine C ids).init s) : Invariant s := by
  obtain ⟨-, ⟨-, -, hpc⟩, hpushed⟩ := h
  refine ⟨fun t => ?_, fun t x hx => ?_, fun t ht => ?_⟩
  · rw [hpc]
    trivial
  · rw [hpc] at hx
    cases hx
  · cases (hpushed t).symm.trans ht

theorem Invariant.of_reachable (h : (machine C ids).Reachable s) : Invariant s :=
  h.invariant invariant_init fun inv hstep => inv.step hstep

/-! ## The simulation -/

/-- The loop as if every block were one step: whoever has pushed and will write to the wakeupfd
owes the write already. -/
def atomic (l : EventLoop T F C) (pushed : Thread T → Bool) : EventLoop T F C :=
  { l with
    calling := fun t => if pushed t && wakes l t then .queueInLoop else l.calling t }

def eventLoop (s : LockedLoop T F C) : EventLoop T F C := atomic s.loop s.pushed

/-- The step of the loop. -/
def Action.eventLoop : Action T F C → List (EventLoop.Action T F C)
  | push t cb => [.queueInLoop t cb]
  | swap => [.swap]
  | step x => [x]
  | _ => []

theorem atomic_step {l m : EventLoop T F C} {pushed : Thread T → Bool}
    {x : EventLoop.Action T F C} (h : EventLoop.Step l x (.ok m))
    (hx : ∀ t cb, x ≠ .queueInLoop t cb) (hidle : pushed x.thread = false) :
    EventLoop.Step (atomic l pushed) x (.ok (atomic m pushed)) := by
  have hself : (atomic l pushed).calling x.thread = l.calling x.thread := by
    simp [atomic, hidle]
  have hcalling : (atomic m pushed).calling =
      Function.update (atomic l pushed).calling x.thread (m.calling x.thread) := by
    funext u
    by_cases hu : u = x.thread
    · rw [hu, Function.update_self]
      simp [atomic, hidle]
    · rw [Function.update_of_ne hu]
      -- the flag matters for the loop thread alone, which takes the step if it changes
      have hflag : wakes m u = wakes l u := by
        cases u with
        | other => rfl
        | loop => rw [wakes, wakes, (h.of_other (Ne.symm hu)).2]
      simp only [atomic, hflag, h.calling_of_ne hu]
  have hstep := h.recall hx hself
  rw [← hcalling] at hstep
  exact hstep

/-- **Step lemma**: a block is one step of the loop, where it has its access. -/
theorem Step.simulates (inv : Invariant s) (h : Step ids s a (.ok s')) :
    (EventLoop.machine T F C).Run s.eventLoop a.eventLoop s'.eventLoop := by
  cases h with
  | call | size => exact .nil
  | mutex _ _ hr =>
    obtain ⟨_, -, rfl⟩ := exists_of_map_eq_ok hr
    exact .nil
  | doPendingFunctors hidle hstep => exact .single (atomic_step hstep nofun hidle.2)
  | @step x l hx hidle hstep =>
    refine .single (atomic_step hstep ?_ hidle.2)
    rintro t cb rfl
    exact hx
  | swap hpc => exact .single (.swap (inv.ready .loop .swap (by rw [hpc]; rfl)).2)
  | @push t cb hpc =>
    have hready : MayCall s.loop t := inv.ready t (.push cb) (by rw [hpc]; rfl)
    have hpushed : s.pushed t = false := by
      by_contra hpushed
      have hnext := inv.pushed t (Bool.not_eq_false _ |>.mp hpushed)
      rw [hpc] at hnext
      cases hnext
    have hcall : s.eventLoop.calling t = .returned := by
      simp [eventLoop, atomic, hpushed, hready.1]
    have hcalling : (s.eventLoop.queueInLoop t cb).calling =
        (atomic s.loop (Function.update s.pushed t true)).calling := by
      funext u
      show (if wakes s.loop t then
        Function.update s.eventLoop.calling t .queueInLoop else s.eventLoop.calling) u =
        if Function.update s.pushed t true u && wakes s.loop u then _ else _
      by_cases hu : u = t
      · subst hu
        cases hwakes : wakes s.loop u with
        | true => simp
        | false => simp [atomic, eventLoop, hpushed]
      · split <;> simp [atomic, eventLoop, hu]
    have hstep : EventLoop.Step s.eventLoop (.queueInLoop t cb)
        (.ok { s.eventLoop.queueInLoop t cb with
          calling := (s.eventLoop.queueInLoop t cb).calling }) := .queueInLoop hcall hready.2
    rw [hcalling] at hstep
    exact .single hstep
  | @decide t hpc hpushed =>
    have hcalling : s.eventLoop.calling =
        (atomic (unlocked s.loop t) (Function.update s.pushed t false)).calling := by
      funext u
      show (if s.pushed u && wakes s.loop u then _ else _) =
        if Function.update s.pushed t false u && wakes s.loop u then _ else
          (if wakes s.loop t then Function.update s.loop.calling t _ else s.loop.calling) u
      by_cases hu : u = t
      · subst hu
        cases hwakes : wakes s.loop u with
        | true => simp [hpushed]
        | false => simp
      · rw [Function.update_of_ne hu]
        congr 1
        split <;> simp [hu]
    have hsame : s.eventLoop = atomic (unlocked s.loop t) (Function.update s.pushed t false) := by
      show { s.loop with calling := s.eventLoop.calling } = _
      rw [hcalling]
      rfl
    exact hsame ▸ .nil

/-- The queue with its mutex is the queue of `EventLoop`. -/
def toEventLoop (C : Type) (ids : ThreadIds (Thread T)) :
    Projection (machine (F := F) C ids) (EventLoop.machine T F C) where
  state := eventLoop
  label := Action.eventLoop
  init {s} h := by
    obtain ⟨⟨hpc, hquit, hflag, hpending, hcall⟩, -, hpushed⟩ := h
    refine .of_init ⟨hpc, hquit, hflag, hpending, ?_⟩
    simp [eventLoop, atomic, hpushed, hcall]
  step h hstep := hstep.simulates (.of_reachable h)

/-- The step on the mutex and on where the threads are. -/
def Action.guard : Action T F C → List (Guarded.Action (Thread T) (Section F))
  | call t x => [.call t (.update x)]
  | mutex a => [a]
  | push t _ | size t _ => [.update t]
  | swap => [.update .loop]
  | step .doPendingFunctors => [.call .loop (.update .swap)]
  | _ => []

/-- `mutex_` is a mutex that the threads lock and unlock. -/
def toGuarded (C : Type) (ids : ThreadIds (Thread T)) :
    Projection (machine (F := F) C ids) (Guarded.machine ids (sections F)) where
  state := guard
  label := Action.guard
  init h := .of_init h.2.1
  step {s a s'} _ hstep := by
    cases hstep with
    | call hidle => exact .single (.call hidle.1)
    | doPendingFunctors hidle => exact .single (.call hidle.1)
    | mutex _ h hr =>
      obtain ⟨g, rfl, rfl⟩ := exists_of_map_eq_ok hr
      exact .single h
    | push hpc | swap hpc | size hpc => exact .single (.update hpc rfl)
    | decide => exact .nil
    | @step x _ hx =>
      cases x with
      | doPendingFunctors => exact hx.elim
      | _ => exact .nil

/-! ## Exclusion and progress -/

/-- Who accesses `pendingFunctors_`. -/
def Action.accesses : Action T F C → Option (Thread T)
  | push t _ | size t _ => some t
  | swap => some .loop
  | _ => none

/-- The steps that go on with a function of the queue. -/
def Action.GoesOn : Action T F C → Prop
  | mutex a => a.GoesOn
  | push .. | swap | size .. | decide _ => True
  | _ => False

theorem updating_of_accesses {r : Except Fault (LockedLoop T F C)} {t : Thread T}
    (h : Step ids s a r) (ht : a.accesses = some t) : ∃ x, s.guard.pc t = .updating x := by
  cases h with
  | push hpc | swap hpc | size hpc =>
    cases ht
    exact ⟨_, hpc⟩
  | _ => cases ht

theorem not_error (hguard : Guarded.Invariant ids s.guard) {e : Fault} :
    ¬ Step ids s a (.error e) := by
  intro h
  cases h with
  | @mutex b r _ hb hstep hr =>
    cases r with
    | ok => cases hr
    | error e' =>
      obtain ⟨t, _, rfl, -⟩ := hguard.of_error hstep
      exact hb

/-- **No deadlock.** -/
theorem Invariant.exists_step (inv : Invariant s) (hguard : Guarded.Invariant ids s.guard)
    {t : Thread T} (ht : ¬ s.Idle t) : ∃ a r, a.GoesOn ∧ Step ids s a r := by
  by_cases hout : s.guard.pc t = .outside
  · have hpushed : s.pushed t = true := by
      by_contra hpushed
      exact ht ⟨hout, Bool.not_eq_true _ |>.mp hpushed⟩
    exact ⟨.decide t, _, trivial, .decide hout hpushed⟩
  · have hawake : s.guard.pc t ≠ .sleeping false := by
      intro hsleep
      have hblock := inv.inBlock t
      rw [hsleep] at hblock
      exact hblock
    obtain ⟨b, r, hb, hstep⟩ := hguard.exists_step (sections F) hout hawake
    have hcases : OnMutex b ∨ ∃ u, b = .update u := by
      cases b with
      | call => exact hb.elim
      | update u => exact .inr ⟨u, rfl⟩
      | _ => exact .inl trivial
    rcases hcases with hmutex | ⟨u, rfl⟩
    · exact ⟨.mutex b, _, hb, .mutex hmutex hstep rfl⟩
    · cases hstep with
      | @update _ x _ hpc =>
        cases x with
        | push cb => exact ⟨.push u cb, _, trivial, .push hpc⟩
        | size => exact ⟨.size u _, _, trivial, .size hpc⟩
        | swap =>
          obtain rfl : u = .loop := (inv.ready u .swap (by rw [hpc]; rfl)).1
          exact ⟨.swap, _, trivial, .swap hpc⟩

/-- **The mutex of the functor queue.** From the start of `loop` on, with no functor queued, let
the loop thread and any number of others queue functors, ask for the size of the queue and swap
it, in any interleaving of their accesses to `mutex_`, `pendingFunctors_` and
`callingPendingFunctors_`. The run is a run of the loop in which each function is one step. The
functors that were run, the rest of those swapped out and the pending ones are those that were
pushed, in this order, and `queueSize` counts the pending ones. Only the owner of the mutex gets
to `pendingFunctors_`, and `isLockedByThisThread` says so. No `MCHECK` fails, and as long as a
thread is in one of the functions some thread can go on with one. The loop does not wait in
`poll` with functors pending, unless the wakeupfd is readable or another thread is between its
push and its write. -/
theorem pendingFunctors_guarded {s₀ : LockedLoop T F C} {w : List (Action T F C)}
    (hinit : (machine C ids).init s₀) (hrun : (machine C ids).Run s₀ w s) :
    (EventLoop.machine T F C).Run s₀.eventLoop (w.flatMap Action.eventLoop) s.eventLoop ∧
    (w.flatMap Action.eventLoop).flatMap EventLoop.Action.ran ++ s.loop.pc.rest ++
      s.loop.pendingFunctors = (w.flatMap Action.eventLoop).flatMap EventLoop.Action.pushed ∧
    (∀ t n r, Step ids s (.size t n) r → n = s.loop.pendingFunctors.length) ∧
    (∀ a r t, Step ids s a r → a.accesses = some t →
      s.guard.mutex.owner = some t ∧ s.guard.mutex.isLockedByThisThread (ids.tid t) = true) ∧
    (∀ a e, ¬ Step ids s a (.error e)) ∧
    (∀ t, ¬ s.Idle t → ∃ a r, a.GoesOn ∧ Step ids s a r) ∧
    (s.loop.pc = .polling → s.loop.pendingFunctors ≠ [] → 0 < s.loop.wakeupFd ∨
      ∃ t, s.pushed (.other t) = true ∨ s.loop.calling (.other t) = .queueInLoop) := by
  have hreach : (machine C ids).Reachable s := ⟨s₀, w, hinit, hrun⟩
  have inv := Invariant.of_reachable hreach
  have hguard : Guarded.Invariant ids s.guard :=
    .of_reachable ((toGuarded C ids).reachable hreach)
  have hloop := (toEventLoop C ids).run (.of_init hinit) hrun
  have hnotices := EventLoop.reachable_invariant ((toEventLoop C ids).reachable hreach)
  refine ⟨hloop, ?_, fun t n r h => ?_, fun a r t h ht => ?_, fun a e => not_error hguard,
    fun t => inv.exists_step hguard, fun hpc hpending => ?_⟩
  · have hfifo := hloop.conserves EventLoop.Step.conserves
    have hempty : (s₀.eventLoop).outstanding = [] := by
      show s₀.loop.pc.rest ++ s₀.loop.pendingFunctors = []
      rw [hinit.1.1, hinit.1.2.2.2.1]
      rfl
    rw [show (toEventLoop C ids).state s₀ = s₀.eventLoop from rfl, hempty, List.nil_append] at hfifo
    refine Eq.trans ?_ hfifo.symm
    rw [List.append_assoc]
    rfl
  · cases h
    rfl
  · obtain ⟨x, hx⟩ := updating_of_accesses h ht
    have hinside : (s.guard.pc t).inside = true := by
      rw [hx]
      rfl
    refine ⟨(hguard.owner t).mpr hinside, ?_⟩
    rw [hguard.isLockedByThisThread_eq, hx]
    rfl
  · have hbefore : s.eventLoop.pc.BeforePoll := by
      show s.loop.pc.BeforePoll
      rw [hpc]
      trivial
    rcases hnotices.noticed hbefore with hnil | hpos | ⟨t, ht⟩
    · exact absurd hnil hpending
    · exact .inl hpos
    · cases t with
      | loop =>
        obtain ⟨f, functors, hrunning⟩ := hnotices.inFunctor (by rw [ht]; nofun)
        cases hpc.symm.trans hrunning
      | other t =>
        replace ht : (if s.pushed (.other t) && wakes s.loop (.other t) then .queueInLoop
          else s.loop.calling (.other t)) = EventLoop.Call.queueInLoop := ht
        split at ht
        · next howes => exact .inr ⟨t, .inl (Bool.and_eq_true_iff.mp howes).1⟩
        · exact .inr ⟨t, .inr ht⟩

/-- A thread has pushed a functor and not unlocked yet, while the loop waits in `poll`. -/
theorem pendingFunctors_guarded_polling : ∃ s : LockedLoop Unit ℕ Unit,
    s.loop.pc = .polling ∧ s.loop.pendingFunctors = [7] ∧ s.loop.wakeupFd = 0 ∧
    ∃ t, s.pushed (.other t) = true ∨ s.loop.calling (.other t) = .queueInLoop := by
  let ids : ThreadIds (Thread Unit) := {
    tid := fun t => if t.isInLoopThread then 7 else 8
    injective := fun t u h => by cases t <;> cases u <;> first | rfl | cases h
    ne_zero := fun t => by cases t <;> simp [Thread.isInLoopThread] }
  let start : LockedLoop Unit ℕ Unit :=
    ⟨⟨false, false, [], 0, .testing, fun _ => .returned⟩, ⟨.unlocked, ⟨⟩, fun _ => .outside⟩,
      fun _ => false⟩
  have hinit : (machine Unit ids).init start :=
    ⟨⟨rfl, rfl, rfl, rfl, rfl⟩, ⟨trivial, rfl, fun _ => rfl⟩, fun _ => rfl⟩
  have hrun : (machine Unit ids).Run start
      [.step .test, .call (.other ()) (.push 7), .mutex (.lock (.other ())),
        .mutex (.assignHolder (.other ())), .push (.other ()) 7] _ :=
    .cons (.step trivial ⟨rfl, rfl⟩ (.test rfl)) <|
      .cons (.call ⟨rfl, rfl⟩ ⟨rfl, by simp⟩ (by simp)) <|
      .cons (.mutex trivial (.lock rfl rfl) rfl) <|
      .cons (.mutex trivial (.assignHolder rfl) rfl) <| .single (.push rfl)
  have hall := pendingFunctors_guarded hinit hrun
  exact ⟨_, rfl, rfl, rfl, (hall.2.2.2.2.2.2 rfl (by simp)).resolve_left (by decide)⟩

end LockedLoop

end Dxian
