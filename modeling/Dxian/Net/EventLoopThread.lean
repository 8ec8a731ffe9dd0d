import Dxian.Base.Fault
import Dxian.Net.EventLoop
import Mathlib.Algebra.Ring.Nat

/-!
# A thread that runs an event loop

The owner of an `EventLoopThread` calls `startLoop` and later its destructor; the
thread that `startLoop` creates runs `threadFunc`. Both access `loop_`, and the
destructor also the members of the loop.

`loop` starts with `quit_ = false`, after `threadFunc` has published the loop. The
owner may be faster.

## Main results

- `Stopping.step`, `Stopping.run` — what holds from `quit` on
- `quit_kept` — a `quit` after the start of `loop` is kept, an earlier one is lost
-/

namespace Dxian

open Transition

namespace EventLoopThread

/-- Where the loop thread is in `threadFunc`: inside `callback_`, before
`loop_ = &loop`, before the `quit_ = false` of `loop`, from there on up to `loop_ = NULL`,
or past that. -/
inductive ThreadPc
  | notStarted
  | inCallback
  | publishing
  | entering
  | looping
  | leaving
  | ended
deriving DecidableEq

/-- Where the owner is: before `thread_.start()`, at `while (loop_ == nullptr)`, in
`cond_.wait()`, behind `startLoop`, before `loop_->quit()`, before the `wakeup` in it,
in `thread_.join()`, or behind the destructor. -/
inductive OwnerPc
  | starting
  | testing
  | sleeping
  | returned
  | quitting
  | waking
  | joining
  | destroyed
deriving DecidableEq

inductive Action (F C : Type)
  | start
  | test
  | wakeSpuriously
  | destruct
  | quit
  | wakeup
  | join
  | queueInLoop (cb : F)
  | quitInCallback
  | finishCallback
  | publish
  | enter
  | loop (x : EventLoop.Action PUnit F C)
  | clear
  | finish

end EventLoopThread

/-- `class EventLoopThread`, the loop on the stack of `threadFunc`, and where the two
threads are. `loop_` says whether the pointer is set. -/
structure EventLoopThread (F C : Type) where
  loop_ : Bool
  loop : EventLoop PUnit F C
  thread : EventLoopThread.ThreadPc
  owner : EventLoopThread.OwnerPc

namespace EventLoopThread

variable {F C : Type}

/-- The owner, as the loop sees it. -/
def ownerThread : Thread PUnit := .other ⟨⟩

/-- One step of one of the threads. The code under `mutex_` is one step; `callback_` may
queue functors and call `quit`. -/
inductive Step (s : EventLoopThread F C) :
    Action F C → Except Fault (EventLoopThread F C) → Prop
  | start (hpc : s.owner = .starting) :
      Step s .start (.ok { s with thread := .inCallback, owner := .testing })
  | test (hpc : s.owner = .testing) :
      Step s .test (.ok { s with owner := if s.loop_ then .returned else .sleeping })
  | wakeSpuriously (hpc : s.owner = .sleeping) :
      Step s .wakeSpuriously (.ok { s with owner := .testing })
  | destruct (hpc : s.owner = .returned) :
      Step s .destruct (.ok { s with owner := if s.loop_ then .quitting else .destroyed })
  | quit (hpc : s.owner = .quitting) (hloop : s.loop_ = true) :
      Step s .quit (.ok { s with loop := s.loop.quit ownerThread, owner := .waking })
  | quitNull (hpc : s.owner = .quitting) (hloop : s.loop_ = false) :
      Step s .quit (.error .nullPointer)
  | wakeup (hpc : s.owner = .waking) (hthread : s.thread ≠ .ended) :
      Step s .wakeup (.ok { s with loop := s.loop.wakeup ownerThread, owner := .joining })
  | wakeupDestroyed (hpc : s.owner = .waking) (hthread : s.thread = .ended) :
      Step s .wakeup (.error .useAfterFree)
  | join (hpc : s.owner = .joining) (hthread : s.thread = .ended) :
      Step s .join (.ok { s with owner := .destroyed })
  | queueInLoop {cb} (hpc : s.thread = .inCallback) :
      Step s (.queueInLoop cb) (.ok { s with loop := s.loop.queueInLoop .loop cb })
  | quitInCallback (hpc : s.thread = .inCallback) :
      Step s .quitInCallback (.ok { s with loop := s.loop.quit .loop })
  | finishCallback (hpc : s.thread = .inCallback) :
      Step s .finishCallback (.ok { s with thread := .publishing })
  | publish (hpc : s.thread = .publishing) :
      Step s .publish (.ok { s with
        loop_ := true
        thread := .entering
        owner := if s.owner = .sleeping then .testing else s.owner })
  | enter (hpc : s.thread = .entering) :
      Step s .enter (.ok { s with loop := s.loop.enter, thread := .looping })
  | loop {x l} (hpc : s.thread = .looping) (hx : x.thread = .loop)
      (hstep : EventLoop.Step s.loop x (.ok l)) : Step s (.loop x) (.ok { s with loop := l })
  | clear (hpc : s.thread = .looping) (hloop : s.loop.pc = .exited) :
      Step s .clear (.ok { s with loop_ := false, thread := .leaving })
  | finish (hpc : s.thread = .leaving) : Step s .finish (.ok { s with thread := .ended })

/-- An `EventLoopThread` as constructed; the loop is as its constructor leaves it. -/
def fresh : EventLoopThread F C where
  loop_ := false
  loop := ⟨false, false, [], 0, .exited, fun _ => .returned⟩
  thread := .notStarted
  owner := .starting

/-- One thread calls `startLoop` and then the destructor. -/
def machine (F C : Type) : System (EventLoopThread F C) (Action F C) Fault where
  init s := s = fresh
  step := Step

/-! ## Where the threads are -/

/-- The loop thread has executed the `quit_ = false` of `loop`. -/
def ThreadPc.entered : ThreadPc → Bool
  | looping | leaving | ended => true
  | _ => false

/-- The destructor has stored `quit_` and has not joined yet. -/
def OwnerPc.quitted : OwnerPc → Bool
  | waking | joining => true
  | _ => false

/-- What the labels of a run say about its last state. -/
structure History (w : List (Action F C)) (s : EventLoopThread F C) : Prop where
  entered : s.thread.entered = true ↔ .enter ∈ w
  quitted : s.owner.quitted = true → .quit ∈ w
  loop_ : s.loop_ = true ↔ s.thread = .entering ∨ s.thread = .looping
  starting : s.owner = .starting → s.thread = .notStarted

theorem History.fresh : History [] (fresh : EventLoopThread F C) where
  entered := by simp [EventLoopThread.fresh, ThreadPc.entered]
  quitted := nofun
  loop_ := by simp [EventLoopThread.fresh]
  starting _ := rfl

/-- A step other than `enter` that stores no `quit_` in the destructor. -/
theorem History.snoc {w : List (Action F C)} {s t : EventLoopThread F C} (h : History w s)
    {a : Action F C} (ha : a ≠ .enter) (hthread : t.thread.entered = s.thread.entered)
    (howner : t.owner.quitted = true → s.owner.quitted = true)
    (hloop : t.loop_ = true ↔ t.thread = .entering ∨ t.thread = .looping)
    (hstarting : t.owner = .starting → t.thread = .notStarted) : History (w ++ [a]) t where
  entered := by
    rw [hthread, h.entered]
    simp [ha.symm]
  quitted hq := List.mem_append_left _ (h.quitted (howner hq))
  loop_ := hloop
  starting := hstarting

theorem History.of_run {w : List (Action F C)} {s : EventLoopThread F C}
    (h : (machine F C).Run EventLoopThread.fresh w s) : History w s := by
  induction h with
  | nil => exact .fresh
  | snoc _ hstep ih =>
    have hloop := ih.loop_
    have hstarted : ∀ {pc : ThreadPc}, _ = pc → pc ≠ .notStarted → _ ≠ OwnerPc.starting :=
      fun hpc hne hstarting => hne (hpc.symm.trans (ih.starting hstarting))
    cases hstep with
    | start hpc =>
      have hthread := ih.starting hpc
      exact ih.snoc nofun (by rw [hthread]; rfl) nofun (by simpa [hthread] using hloop) nofun
    | test hpc =>
      refine ih.snoc nofun rfl (fun hq => ?_) hloop fun hq => ?_
      · split at hq <;> cases hq
      · split at hq <;> cases hq
    | wakeSpuriously hpc => exact ih.snoc nofun rfl nofun hloop nofun
    | destruct hpc =>
      refine ih.snoc nofun rfl (fun hq => ?_) hloop fun hq => ?_
      · split at hq <;> cases hq
      · split at hq <;> cases hq
    | quit hpc hset => exact ⟨by simpa using ih.entered, fun _ => by simp, hloop, nofun⟩
    | wakeup hpc hthread => exact ih.snoc nofun rfl (fun _ => by rw [hpc]; rfl) hloop nofun
    | join hpc hthread => exact ih.snoc nofun rfl nofun hloop nofun
    | queueInLoop hpc | quitInCallback hpc => exact ih.snoc nofun rfl id hloop ih.starting
    | finishCallback hpc =>
      exact ih.snoc nofun (by rw [hpc]; rfl) id (by simpa [hpc] using hloop)
        fun hq => absurd hq (hstarted hpc nofun)
    | publish hpc =>
      refine ih.snoc nofun (by rw [hpc]; rfl) (fun hq => ?_) (by simp) fun hq => ?_
      · split at hq
        · cases hq
        · exact hq
      · split at hq
        · cases hq
        · exact absurd hq (hstarted hpc nofun)
    | enter hpc => exact ⟨by simp [ThreadPc.entered],
        fun hq => List.mem_append_left _ (ih.quitted hq), by simpa [hpc] using hloop,
        fun hq => absurd hq (hstarted hpc nofun)⟩
    | loop hpc hx hloop' => exact ih.snoc nofun rfl id hloop ih.starting
    | clear hpc hexited =>
      exact ih.snoc nofun (by rw [hpc]; rfl) id (by simp) fun hq => absurd hq (hstarted hpc nofun)
    | finish hpc =>
      exact ih.snoc nofun (by rw [hpc]; rfl) id (by simpa [hpc] using hloop)
        fun hq => absurd hq (hstarted hpc nofun)

/-! ## After `quit` -/

/-- The polls that are under way. -/
def polling : EventLoop.Pc F C → ℕ
  | .polling => 1
  | _ => 0

/-- The polls that return with a step of the loop. -/
def returns : EventLoop.Action PUnit F C → ℕ
  | .poll _ => 1
  | _ => 0

/-- The polls that return with a step. -/
def Action.polls : Action F C → ℕ
  | loop x => returns x
  | _ => 0

/-- With `quit_` set the loop does not start to poll. -/
theorem returns_add_polling_le {l m : EventLoop PUnit F C} {x : EventLoop.Action PUnit F C}
    (h : EventLoop.Step l x (.ok m)) (hq : l.quit_ = true) :
    returns x + polling m.pc ≤ polling l.pc ∧
      (m.pc = .polling → l.pc = .polling ∧ l.wakeupFd ≤ m.wakeupFd) := by
  cases h with
  | queueInLoop | quit => exact ⟨by simp [returns, EventLoop.queueInLoop, EventLoop.quit],
      fun hpc => ⟨hpc, Nat.le_refl _⟩⟩
  | wakeup => exact ⟨by simp [returns, EventLoop.wakeup], fun hpc => ⟨hpc, Nat.le_succ _⟩⟩
  | poll hpc => exact ⟨by simp [returns, polling, hpc], fun hpoll => by cases hpoll⟩
  | test hpc => exact ⟨by simp [returns, polling, hq], by simp [hq]⟩
  | _ hpc => exact ⟨by simp [returns, polling], fun hpoll => by cases hpoll⟩

/-- The destructor has called `quit`, and `loop` will not take it back. -/
structure Stopping (s : EventLoopThread F C) : Prop where
  owner : s.owner.quitted = true ∨ s.owner = .destroyed
  entered : s.thread.entered = true
  quit_ : s.loop.quit_ = true
  awake : s.owner = .joining → s.loop.pc = .polling → 0 < s.loop.wakeupFd

/-- **Step lemma.** -/
theorem Stopping.step {s t : EventLoopThread F C} {a : Action F C} (h : Stopping s)
    (hstep : Step s a (.ok t)) :
    Stopping t ∧ a.polls + polling t.loop.pc ≤ polling s.loop.pc := by
  obtain ⟨howner, hentered, hquit, hawake⟩ := h
  cases hstep with
  | start hpc | test hpc | wakeSpuriously hpc | destruct hpc | quit hpc _ =>
    rw [hpc] at howner
    exact absurd howner (by simp [OwnerPc.quitted])
  | wakeup hpc hthread =>
    exact ⟨⟨.inl rfl, hentered, hquit, fun _ _ => Nat.succ_pos _⟩,
      by simp [Action.polls, EventLoop.wakeup]⟩
  | join hpc hthread =>
    exact ⟨⟨.inr rfl, hentered, hquit, fun hjoin => by cases hjoin⟩, by simp [Action.polls]⟩
  | queueInLoop hpc | quitInCallback hpc | finishCallback hpc | publish hpc | enter hpc =>
    rw [hpc] at hentered
    cases hentered
  | loop hpc hx hloop =>
    obtain ⟨hpolls, hsame⟩ := returns_add_polling_le hloop hquit
    refine ⟨⟨howner, hentered, hloop.quit_ hquit, fun hjoin hpoll => ?_⟩, hpolls⟩
    obtain ⟨hpoll', hle⟩ := hsame hpoll
    exact Nat.lt_of_lt_of_le (hawake hjoin hpoll') hle
  | clear hpc hloop => exact ⟨⟨howner, rfl, hquit, hawake⟩, by simp [Action.polls]⟩
  | finish hpc => exact ⟨⟨howner, rfl, hquit, hawake⟩, by simp [Action.polls]⟩

/-- **Run lemma.** -/
theorem Stopping.run {s t : EventLoopThread F C} {u : List (Action F C)} (h : Stopping s)
    (hrun : (machine F C).Run s u t) :
    Stopping t ∧ (u.map Action.polls).sum + polling t.loop.pc ≤ polling s.loop.pc := by
  induction hrun with
  | nil => exact ⟨h, by simp⟩
  | snoc _ hstep ih =>
    obtain ⟨hstop, hpolls⟩ := ih.1.step hstep
    refine ⟨hstop, ?_⟩
    have hbefore := ih.2
    rw [List.map_append, List.sum_append, List.map_singleton, List.sum_singleton]
    omega

/-! ## Is the thread stopped? -/

/-- After `quit` the loop thread polls at most once more, without waiting once `quit`
has returned, and the destructor does not wait for a loop that has forgotten it. -/
structure QuitKept (w : List (Action F C)) (s : EventLoopThread F C) : Prop where
  polls : ∀ v u, w = v ++ .quit :: u → (u.map Action.polls).sum + polling s.loop.pc ≤ 1
  awake : s.owner = .joining → s.loop.pc = .polling → 0 < s.loop.wakeupFd
  running : ¬ (s.owner = .joining ∧ s.thread = .looping ∧ s.loop.quit_ = false)

theorem polling_le_one (pc : EventLoop.Pc F C) : polling pc ≤ 1 := by
  cases pc <;> simp [polling]

/-- A `quit` after the start of `loop` is not lost. -/
theorem stopping_of_quit {s t : EventLoopThread F C} (h : Step s .quit (.ok t))
    (hentered : s.thread.entered = true) : Stopping t := by
  cases h with
  | quit hpc hloop => exact ⟨.inl rfl, hentered, rfl, nofun⟩

/-- The quit is kept if the loop has been entered before. -/
theorem quitKept_of_enter {w : List (Action F C)} {t : EventLoopThread F C}
    (h : (machine F C).Run fresh w t)
    (henter : ∀ v u, w = v ++ .quit :: u → .enter ∈ v) : QuitKept w t := by
  have hsplit : ∀ v u, w = v ++ .quit :: u →
      Stopping t ∧ (u.map Action.polls).sum + polling t.loop.pc ≤ 1 := by
    intro v u hw
    rw [hw] at h
    obtain ⟨s, hv, hrest⟩ := h.split
    obtain ⟨s', hquit, hu⟩ := hrest.head
    have hentered := (History.of_run hv).entered.mpr (henter v u hw)
    obtain ⟨hstop, hpolls⟩ := (stopping_of_quit hquit hentered).run hu
    exact ⟨hstop, Nat.le_trans hpolls (polling_le_one _)⟩
  have hjoining : t.owner = .joining → Stopping t := by
    intro hjoin
    have hmem : .quit ∈ w := (History.of_run h).quitted (by rw [hjoin]; rfl)
    obtain ⟨v, u, hw⟩ := List.append_of_mem hmem
    exact (hsplit v u hw).1
  refine ⟨fun v u hw => (hsplit v u hw).2, fun hjoin => (hjoining hjoin).awake hjoin, ?_⟩
  intro hlost
  obtain ⟨hjoin, -, hquit⟩ := hlost
  rw [(hjoining hjoin).quit_] at hquit
  cases hquit

/-- An earlier quit is lost: `loop` takes it back, and the destructor waits. -/
theorem lost_of_not_enter {v : List (Action F C)} {s s' : EventLoopThread F C}
    (h : (machine F C).Run fresh v s) (hquit : Step s .quit (.ok s')) (henter : .enter ∉ v) :
    ∃ t, (machine F C).Run s' [.wakeup, .enter] t ∧
      t.owner = .joining ∧ t.thread = .looping ∧ t.loop.quit_ = false := by
  have hist := History.of_run h
  cases hquit with
  | quit hpc hloop =>
    have hthread : s.thread = .entering := by
      rcases hist.loop_.mp hloop with hentering | hlooping
      · exact hentering
      · exact absurd (hist.entered.mp (by rw [hlooping]; rfl)) henter
    have hne : s.thread ≠ .ended := by
      rw [hthread]
      nofun
    exact ⟨_, .cons (.wakeup rfl hne) (.single (.enter hthread)), rfl, rfl, rfl⟩

/-- **When the quit is kept.** In every run in which the destructor calls `quit` after
`loop` has executed `quit_ = false`, the quit is kept in every state. After every other
run up to a call of `quit` it may be lost. -/
theorem quit_kept (F C : Type) :
    (∀ w t, (machine F C).Run fresh w t →
      (∀ v u, w = v ++ .quit :: u → .enter ∈ v) → QuitKept w t) ∧
    ∀ v s s', (machine F C).Run fresh v s → Step s .quit (.ok s') → .enter ∉ v →
      ∃ u t, (machine F C).Run fresh (v ++ .quit :: u) t ∧ ¬ QuitKept (v ++ .quit :: u) t := by
  refine ⟨fun w t => quitKept_of_enter, fun v s s' h hquit henter => ?_⟩
  obtain ⟨t, hrun, hlost⟩ := lost_of_not_enter h hquit henter
  exact ⟨_, t, h.append (.cons hquit hrun), fun hkept => hkept.running hlost⟩

theorem mem_of_append_eq {α : Type*} {x y : α} {p q v u : List α} (hx : x ∈ p) (hy : y ∉ p)
    (h : p ++ q = v ++ y :: u) : x ∈ v := by
  rcases List.append_eq_append_iff.mp h with ⟨r, rfl, -⟩ | ⟨r, rfl, hr⟩
  · exact List.mem_append_left _ hx
  · cases r with
    | nil => simpa using hx
    | cons z r =>
      obtain rfl : y = z := (List.cons.inj hr).1
      exact absurd (by simp) hy

/-- The destructor is called after the start of `loop`, and before it. -/
theorem quit_kept_after_enter :
    (∃ t, (machine ℕ ℕ).Run fresh
      [.start, .finishCallback, .publish, .test, .enter, .destruct, .quit, .wakeup] t ∧
      QuitKept [.start, .finishCallback, .publish, .test, .enter, .destruct, .quit, .wakeup] t) ∧
    ∃ u t, (machine ℕ ℕ).Run fresh
      ([.start, .finishCallback, .publish, .test, .destruct] ++ .quit :: u) t ∧
      ¬ QuitKept ([.start, .finishCallback, .publish, .test, .destruct] ++ .quit :: u) t := by
  constructor
  · have hrun : (machine ℕ ℕ).Run fresh
        [.start, .finishCallback, .publish, .test, .enter, .destruct, .quit, .wakeup] _ :=
      .cons (.start rfl) <| .cons (.finishCallback rfl) <| .cons (.publish rfl) <|
        .cons (.test rfl) <| .cons (.enter rfl) <| .cons (.destruct rfl) <|
        .cons (.quit rfl rfl) <| .single (.wakeup rfl nofun)
    refine ⟨_, hrun, (quit_kept ℕ ℕ).1 _ _ hrun fun v u hw => ?_⟩
    exact mem_of_append_eq (p := [.start, .finishCallback, .publish, .test, .enter, .destruct])
      (by simp) (by simp) hw
  · have hrun : (machine ℕ ℕ).Run fresh [.start, .finishCallback, .publish, .test, .destruct] _ :=
      .cons (.start rfl) <| .cons (.finishCallback rfl) <| .cons (.publish rfl) <|
        .cons (.test rfl) <| .single (.destruct rfl)
    exact (quit_kept ℕ ℕ).2 _ _ _ hrun (.quit rfl rfl) (by simp)

/-- The owner calls the destructor as soon as `startLoop` has returned, and
`threadFunc` has not got to `loop` yet. -/
theorem quit_lost : ¬ ∀ w t, (machine ℕ ℕ).Run fresh w t → QuitKept w t := by
  intro hall
  have hrun : (machine ℕ ℕ).Run fresh
      [.start, .finishCallback, .publish, .test, .destruct, .quit, .wakeup, .enter] _ :=
    .cons (.start rfl) <| .cons (.finishCallback rfl) <| .cons (.publish rfl) <|
      .cons (.test rfl) <| .cons (.destruct rfl) <| .cons (.quit rfl rfl) <|
      .cons (.wakeup rfl nofun) <| .single (.enter rfl)
  exact (hall _ _ hrun).running ⟨rfl, rfl, rfl⟩

end EventLoopThread

end Dxian
