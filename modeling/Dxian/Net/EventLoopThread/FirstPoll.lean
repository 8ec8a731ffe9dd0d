import Dxian.Net.EventLoopThread

/-!
# Functors that are queued before `loop`

Between its constructor and `loop`, the own thread of an `EventLoop` may queue functors;
the init callback of an `EventLoopThread` runs there too. `queueInLoop` writes to the
wakeupfd for other threads and inside functors, because the next look at
`pendingFunctors_` then comes after the next `poll`. Before `loop` it does so as well,
but nothing is written.

## Main results

- `Startup` — a loop from its constructor on
- `Startup.Quiet.of_run` — what the calls before the first `poll` leave behind
- `EventLoopThread.projection` — the loop of an `EventLoopThread` is such a loop
- `first_poll_noticed_iff` — when the first `poll` does not wait with functors queued
-/

namespace Dxian

open Transition

namespace EventLoop

variable {T F C : Type} [DecidableEq T]

/-- A thread does not change what the others owe. -/
theorem calling_queueInLoop {l : EventLoop T F C} {t u : Thread T} (h : u ≠ t) (cb : F) :
    (l.queueInLoop t cb).calling u = l.calling u := by
  unfold queueInLoop
  dsimp only
  split
  · exact Function.update_of_ne h ..
  · rfl

theorem calling_quit {l : EventLoop T F C} {t u : Thread T} (h : u ≠ t) :
    (l.quit t).calling u = l.calling u := by
  unfold quit
  dsimp only
  split
  · exact Function.update_of_ne h ..
  · rfl

theorem calling_wakeup {l : EventLoop T F C} {t u : Thread T} (h : u ≠ t) :
    (l.wakeup t).calling u = l.calling u :=
  Function.update_of_ne h ..

/-- An `EventLoop` as constructed. -/
def constructed : EventLoop T F C := ⟨false, false, [], 0, .exited, fun _ => .returned⟩

/-- A loop from its constructor on. -/
structure Startup (T F C : Type) where
  loop : EventLoop T F C
  entered : Bool

namespace Startup

/-- `queueInLoop`, `quit` and `enter` are those of the own thread before `loop`. -/
inductive Action (T F C : Type)
  | queueInLoop (cb : F)
  | quit
  | enter
  | step (x : EventLoop.Action T F C)

/-- The functor that is pushed. -/
def Action.pushed : Action T F C → List F
  | queueInLoop cb => [cb]
  | step x => x.pushed
  | _ => []

/-- The other threads do not wait for `loop`. -/
inductive Step (s : Startup T F C) : Action T F C → Except Empty (Startup T F C) → Prop
  | queueInLoop {cb} (hentered : s.entered = false) :
      Step s (.queueInLoop cb) (.ok { s with loop := s.loop.queueInLoop .loop cb })
  | quit (hentered : s.entered = false) : Step s .quit (.ok { s with loop := s.loop.quit .loop })
  | enter (hentered : s.entered = false) : Step s .enter (.ok ⟨s.loop.enter, true⟩)
  | step {x l} (hx : s.entered = false → x.thread ≠ .loop)
      (hstep : EventLoop.Step s.loop x (.ok l)) : Step s (.step x) (.ok { s with loop := l })

def machine (T F C : Type) [DecidableEq T] : System (Startup T F C) (Action T F C) Empty where
  init s := s = ⟨constructed, false⟩
  step := Step

variable {s t : Startup T F C} {a : Action T F C} {w : List (Action T F C)}

/-- Before the first `poll` is over, the own thread has written nothing and owes nothing. -/
structure Quiet (w : List (Action T F C)) (s : Startup T F C) : Prop where
  pc : s.loop.pc = .exited ∨ s.loop.pc = .testing ∨ s.loop.pc = .polling
  flag : s.loop.callingPendingFunctors = false
  call : s.loop.calling .loop = .returned
  pending : s.loop.pendingFunctors = w.flatMap Action.pushed
  written : 0 < s.loop.wakeupFd ↔ ∃ u, .step (.wakeup (.other u)) ∈ w

omit [DecidableEq T] in
/-- A step that does not write. -/
theorem Quiet.snoc (h : Quiet w s)
    (hpc : t.loop.pc = .exited ∨ t.loop.pc = .testing ∨ t.loop.pc = .polling)
    (hflag : t.loop.callingPendingFunctors = s.loop.callingPendingFunctors)
    (hcall : t.loop.calling .loop = s.loop.calling .loop)
    (hpending : t.loop.pendingFunctors = s.loop.pendingFunctors ++ a.pushed)
    (hfd : t.loop.wakeupFd = s.loop.wakeupFd) (ha : ∀ u, a ≠ .step (.wakeup (.other u))) :
    Quiet (w ++ [a]) t where
  pc := hpc
  flag := hflag.trans h.flag
  call := hcall.trans h.call
  pending := by simp [hpending, h.pending]
  written := by simp [hfd, h.written, (ha _).symm]

/-- **Step lemma.** -/
theorem Quiet.step (h : Quiet w s) (hstep : Step s a (.ok t))
    (ha : ∀ active, a ≠ .step (.poll active)) : Quiet (w ++ [a]) t := by
  have hout : ¬ s.loop.pc.InCallback := by
    intro hin
    rcases h.pc with hpc | hpc | hpc <;> rw [hpc] at hin <;> exact hin
  cases hstep with
  | @queueInLoop cb hentered =>
    have hcalling : (s.loop.queueInLoop .loop cb).calling = s.loop.calling :=
      if_neg (by simp [Thread.isInLoopThread, h.flag])
    exact h.snoc h.pc rfl (congrFun hcalling .loop) rfl rfl (by simp)
  | quit hentered =>
    exact h.snoc h.pc rfl rfl (by simp [Action.pushed, EventLoop.quit]) rfl (by simp)
  | enter hentered =>
    exact h.snoc (.inr (.inl rfl)) rfl rfl (by simp [Action.pushed, EventLoop.enter]) rfl
      (by simp)
  | @step x l hx hstep =>
    cases hstep with
    | @queueInLoop u cb hcall hpc =>
      cases u with
      | loop => exact absurd (hpc rfl) hout
      | other u =>
        exact h.snoc h.pc rfl (calling_queueInLoop (t := .other u) (by simp) cb) rfl rfl (by simp)
    | @quit u hcall hpc =>
      cases u with
      | loop => exact absurd (hpc rfl) hout
      | other u =>
        refine h.snoc h.pc rfl (calling_quit (t := .other u) (by simp)) ?_ rfl (by simp)
        simp [Action.pushed, EventLoop.Action.pushed, EventLoop.quit]
    | @wakeup u hcall =>
      cases u with
      | loop => exact absurd h.call hcall
      | other u =>
        refine ⟨h.pc, h.flag, (calling_wakeup (t := .other u) (by simp)).trans h.call, ?_, ?_⟩
        · simp [EventLoop.wakeup, h.pending, Action.pushed, EventLoop.Action.pushed]
        · simp [EventLoop.wakeup]
    | test hpc =>
      refine h.snoc ?_ rfl rfl (by simp [Action.pushed, EventLoop.Action.pushed]) rfl (by simp)
      cases s.loop.quit_ <;> simp
    | @poll active hpc => exact absurd rfl (ha active)
    | handleRead hpc | handleEvent hpc | finishEvent hpc | doPendingFunctors hpc | swap hpc
    | runFunctor hpc | finishFunctor hpc | finishFunctors hpc =>
      rcases h.pc with hpc' | hpc' | hpc' <;> cases hpc.symm.trans hpc'

/-- **Run lemma.** -/
theorem Quiet.of_run (h : (machine T F C).Run ⟨constructed, false⟩ w s)
    (hw : ∀ active, .step (.poll active) ∉ w) : Quiet w s := by
  induction h with
  | nil => exact ⟨.inl rfl, rfl, rfl, rfl, by simp [constructed]⟩
  | snoc _ hstep ih =>
    refine (ih fun active hmem => ?_).step hstep fun active heq => ?_
    · exact hw active (List.mem_append_left _ hmem)
    · exact hw active (by simp [heq])

/-- The first `poll` does not wait with functors queued, exactly if nothing has been
queued or another thread has written to the wakeupfd. -/
theorem noticed_iff (h : (machine T F C).Run ⟨constructed, false⟩ w s)
    (hw : ∀ active, .step (.poll active) ∉ w) :
    (s.loop.pendingFunctors ≠ [] → 0 < s.loop.wakeupFd) ↔
      (∀ a ∈ w, a.pushed = []) ∨ ∃ u, .step (.wakeup (.other u)) ∈ w := by
  have hquiet := Quiet.of_run h hw
  rw [hquiet.written, hquiet.pending, ne_eq, List.flatMap_eq_nil_iff, ← or_iff_not_imp_left]

end Startup

end EventLoop

/-! ## The loop of an `EventLoopThread` -/

namespace EventLoopThread

open EventLoop (Startup)

variable {F C : Type} {s t : EventLoopThread F C} {a : Action F C} {w : List (Action F C)}

/-- The functor that is pushed. -/
def Action.pushed : Action F C → List F
  | queueInLoop cb => [cb]
  | loop x => x.pushed
  | _ => []

/-- The step of the loop in a step of the threads. -/
def Action.ofLoop : Action F C → List (Startup.Action PUnit F C)
  | queueInLoop cb => [.queueInLoop cb]
  | quitInCallback => [.quit]
  | enter => [.enter]
  | quit => [.step (.quit ownerThread)]
  | wakeup => [.step (.wakeup ownerThread)]
  | loop x => [.step x]
  | _ => []

/-- What the owner owes: the write of its `quit`. -/
def Owes (s : EventLoopThread F C) : Prop :=
  s.loop.calling ownerThread ≠ .returned ↔ s.owner = .waking

/-- The loop thread does not change what the owner owes. -/
theorem calling_owner {l m : EventLoop PUnit.{1} F C} {x : EventLoop.Action PUnit.{1} F C}
    (h : EventLoop.Step l x (.ok m)) (hx : x.thread = .loop) :
    m.calling ownerThread = l.calling ownerThread := by
  have hne : ∀ {u : Thread PUnit.{1}}, u = .loop → ownerThread ≠ u := by
    rintro _ rfl
    simp [ownerThread]
  cases h with
  | queueInLoop hcall hpc => exact EventLoop.calling_queueInLoop (hne hx) _
  | quit hcall hpc => exact EventLoop.calling_quit (hne hx)
  | wakeup hcall => exact EventLoop.calling_wakeup (hne hx)
  | _ => rfl

/-- **Step lemma.** -/
theorem Owes.step (h : Owes s) (hstep : Step s a (.ok t)) : Owes t := by
  unfold Owes at h ⊢
  cases hstep with
  | start hpc | wakeSpuriously hpc | join hpc _ =>
    rw [hpc] at h
    rw [h]
    simp
  | test hpc | destruct hpc =>
    rw [hpc] at h
    rw [h]
    dsimp only
    split <;> simp
  | quit hpc hset => simp [EventLoop.quit, ownerThread, Thread.isInLoopThread]
  | wakeup hpc hthread => simp [EventLoop.wakeup]
  | queueInLoop hpc =>
    rw [← h, EventLoop.calling_queueInLoop (t := .loop) (by simp [ownerThread])]
  | publish hpc =>
    rw [h]
    dsimp only
    split
    · next hsleeping => simp [hsleeping]
    · rfl
  | loop hpc hx hloop =>
    rw [← h, calling_owner hloop hx]
  | quitInCallback | finishCallback | enter | clear | finish => exact h

/-- The loop of an `EventLoopThread` is a loop from its constructor on. -/
def projection (F C : Type) : Projection (machine F C) (Startup.machine PUnit F C) where
  state s := ⟨s.loop, s.thread.entered⟩
  label := Action.ofLoop
  init := by
    rintro s rfl
    exact .of_init rfl
  step {s a t} hs hstep := by
    have howes : Owes s := hs.invariant (I := Owes)
      (by rintro s rfl; simp [Owes, fresh]) fun h hstep => h.step hstep
    obtain ⟨_, v, rfl, hv⟩ := hs
    have hnil : ∀ {pc : ThreadPc}, pc.entered = s.thread.entered →
        (Startup.machine PUnit F C).Run ⟨s.loop, s.thread.entered⟩ [] ⟨s.loop, pc.entered⟩ :=
      fun hpc => hpc ▸ .nil
    cases hstep with
    | start hpc => exact hnil (by rw [(History.of_run hv).starting hpc]; rfl)
    | finishCallback hpc | publish hpc | clear hpc _ | finish hpc => exact hnil (by rw [hpc]; rfl)
    | test hpc | wakeSpuriously hpc | destruct hpc | join hpc _ => exact .nil
    | queueInLoop hpc => exact .single (.queueInLoop (by rw [hpc]; rfl))
    | quitInCallback hpc => exact .single (.quit (by rw [hpc]; rfl))
    | enter hpc => exact .single (.enter (by rw [hpc]; rfl))
    | quit hpc hset =>
      have hcall : s.loop.calling ownerThread = .returned := by
        by_contra hne
        cases hpc.symm.trans (howes.mp hne)
      exact .single (.step (fun _ => nofun) (.quit hcall nofun))
    | wakeup hpc hthread => exact .single (.step (fun _ => nofun) (.wakeup (howes.mpr hpc)))
    | loop hpc hx hloop =>
      refine .single (.step (fun hentered => ?_) hloop)
      rw [hpc] at hentered
      cases hentered

theorem flatMap_pushed_ofLoop (a : Action F C) :
    a.ofLoop.flatMap Startup.Action.pushed = a.pushed := by
  cases a <;> simp [Action.ofLoop, Startup.Action.pushed, Action.pushed, EventLoop.Action.pushed]

/-- The steps of the loop thread are its own. -/
theorem thread_of_run (h : (machine F C).Run fresh w s) {x : EventLoop.Action PUnit F C}
    (hx : .loop x ∈ w) : x.thread = .loop := by
  induction h with
  | nil => cases hx
  | snoc _ hstep ih =>
    rcases List.mem_append.mp hx with hmem | hlast
    · exact ih hmem
    · cases hstep with
      | loop _ hthread _ =>
        obtain ⟨rfl⟩ : x = _ := by simpa using hlast
        exact hthread
      | _ => simp at hlast

/-- The same for the loop of an `EventLoopThread`: its init callback queues before `loop`,
and only the destructor writes. -/
theorem noticed_iff (h : (machine F C).Run fresh w s)
    (hw : ∀ active, .loop (.poll active) ∉ w) :
    (s.loop.pendingFunctors ≠ [] → 0 < s.loop.wakeupFd) ↔
      (∀ a ∈ w, a.pushed = []) ∨ .wakeup ∈ w := by
  have hrun : (Startup.machine PUnit F C).Run ⟨EventLoop.constructed, false⟩
      (w.flatMap Action.ofLoop) ⟨s.loop, s.thread.entered⟩ :=
    (projection F C).run (.of_init rfl) h
  have hpoll : ∀ active, .step (.poll active) ∉ w.flatMap Action.ofLoop := by
    intro active hmem
    obtain ⟨a, ha, hlabel⟩ := List.mem_flatMap.mp hmem
    cases a with
    | loop x =>
      obtain rfl : EventLoop.Action.poll active = x := by simpa [Action.ofLoop] using hlabel
      exact hw active ha
    | _ => simp [Action.ofLoop] at hlabel
  have hpushed : (∀ a ∈ w.flatMap Action.ofLoop, a.pushed = []) ↔ ∀ a ∈ w, a.pushed = [] := by
    rw [← List.flatMap_eq_nil_iff, ← List.flatMap_eq_nil_iff, List.flatMap_assoc]
    simp only [flatMap_pushed_ofLoop]
  have hwritten : (∃ u, .step (.wakeup (.other u)) ∈ w.flatMap Action.ofLoop) ↔
      Action.wakeup ∈ w := by
    constructor
    · intro ⟨u, hmem⟩
      obtain ⟨a, ha, hlabel⟩ := List.mem_flatMap.mp hmem
      cases a with
      | wakeup => exact ha
      | loop x =>
        obtain rfl : EventLoop.Action.wakeup (.other u) = x := by
          simpa [Action.ofLoop] using hlabel
        cases thread_of_run h ha
      | _ => simp [Action.ofLoop] at hlabel
    · intro hmem
      exact ⟨⟨⟩, List.mem_flatMap.mpr ⟨_, hmem, List.mem_singleton.mpr rfl⟩⟩
  exact (Startup.noticed_iff hrun hpoll).trans (or_congr hpushed hwritten)

end EventLoopThread

/-! ## The first `poll` -/

open EventLoop (Startup)

/-- **When the first `poll` does not wait with functors queued.** Let the own thread queue
any functors before `loop`, directly or in the init callback of an `EventLoopThread`, and
let other threads do what they like. While `loop` is in its first `poll`, the wakeupfd is
readable if functors are queued, exactly if none has been queued or another thread has
written to the wakeupfd. -/
theorem first_poll_noticed_iff (T F C : Type) [DecidableEq T] :
    (∀ w s, (Startup.machine T F C).Run ⟨EventLoop.constructed, false⟩ w s →
      s.loop.pc = .polling → (∀ active, .step (.poll active) ∉ w) →
      ((s.loop.pendingFunctors ≠ [] → 0 < s.loop.wakeupFd) ↔
        (∀ a ∈ w, a.pushed = []) ∨ ∃ u, .step (.wakeup (.other u)) ∈ w)) ∧
    ∀ w s, (EventLoopThread.machine F C).Run EventLoopThread.fresh w s →
      s.loop.pc = .polling → (∀ active, .loop (.poll active) ∉ w) →
      ((s.loop.pendingFunctors ≠ [] → 0 < s.loop.wakeupFd) ↔
        (∀ a ∈ w, a.pushed = []) ∨ .wakeup ∈ w) :=
  ⟨fun _ _ h _ hw => Startup.noticed_iff h hw, fun _ _ h _ hw => EventLoopThread.noticed_iff h hw⟩

/-- Another thread calls `quit` before `loop`; the destructor of an `EventLoopThread`
does. -/
theorem first_poll_noticed_after_quit :
    (∃ s, (Startup.machine Unit ℕ ℕ).Run ⟨EventLoop.constructed, false⟩
      [.queueInLoop 7, .step (.quit (.other ())), .step (.wakeup (.other ())), .enter,
        .step .test] s ∧ s.loop.pendingFunctors = [7] ∧ 0 < s.loop.wakeupFd) ∧
    ∃ s, (EventLoopThread.machine ℕ ℕ).Run EventLoopThread.fresh
      [.start, .queueInLoop 7, .finishCallback, .publish, .test, .destruct, .quit, .wakeup,
        .enter, .loop .test] s ∧ s.loop.pendingFunctors = [7] ∧ 0 < s.loop.wakeupFd := by
  obtain ⟨hdirect, hthread⟩ := first_poll_noticed_iff Unit ℕ ℕ
  constructor
  · have hother : (Thread.other () : Thread Unit) ≠ .loop := by simp
    have hrun : (Startup.machine Unit ℕ ℕ).Run ⟨EventLoop.constructed, false⟩
        [.queueInLoop 7, .step (.quit (.other ())), .step (.wakeup (.other ())), .enter,
          .step .test] _ :=
      .cons (.queueInLoop rfl) <| .cons (.step (fun _ => hother) (.quit rfl (by simp))) <|
        .cons (.step (fun _ => hother)
          (.wakeup (by simp [EventLoop.quit, Thread.isInLoopThread]))) <|
        .cons (.enter rfl) <| .single (.step (fun h => by cases h) (.test rfl))
    have hqueued := List.cons_ne_nil 7 []
    exact ⟨_, hrun, rfl, (hdirect _ _ hrun rfl (by simp)).mpr (.inr ⟨(), by simp⟩) hqueued⟩
  · have hrun : (EventLoopThread.machine ℕ ℕ).Run EventLoopThread.fresh
        [.start, .queueInLoop 7, .finishCallback, .publish, .test, .destruct, .quit, .wakeup,
          .enter, .loop .test] _ :=
      .cons (.start rfl) <| .cons (.queueInLoop rfl) <| .cons (.finishCallback rfl) <|
        .cons (.publish rfl) <| .cons (.test rfl) <| .cons (.destruct rfl) <|
        .cons (.quit rfl rfl) <| .cons (.wakeup rfl (by simp)) <| .cons (.enter rfl) <|
        .single (.loop rfl rfl (.test rfl))
    have hqueued := List.cons_ne_nil 7 []
    exact ⟨_, hrun, rfl, (hthread _ _ hrun rfl (by simp)).mpr (.inr (by simp)) hqueued⟩

/-- A functor is queued before `loop`, directly or in the init callback, and the first
`poll` waits. -/
theorem first_poll_unnoticed :
    (¬ ∀ w s, (Startup.machine Unit ℕ ℕ).Run ⟨EventLoop.constructed, false⟩ w s →
      s.loop.pc = .polling → (∀ active, .step (.poll active) ∉ w) →
      s.loop.pendingFunctors ≠ [] → 0 < s.loop.wakeupFd) ∧
    ¬ ∀ w s, (EventLoopThread.machine ℕ ℕ).Run EventLoopThread.fresh w s →
      s.loop.pc = .polling → (∀ active, .loop (.poll active) ∉ w) →
      s.loop.pendingFunctors ≠ [] → 0 < s.loop.wakeupFd := by
  constructor
  · intro hall
    have hrun : (Startup.machine Unit ℕ ℕ).Run ⟨EventLoop.constructed, false⟩
        [.queueInLoop 7, .enter, .step .test] _ :=
      .cons (.queueInLoop rfl) <| .cons (.enter rfl) <| .single (.step nofun (.test rfl))
    exact Nat.lt_irrefl 0 (hall _ _ hrun rfl (by simp) nofun)
  · intro hall
    have hrun : (EventLoopThread.machine ℕ ℕ).Run EventLoopThread.fresh
        [.start, .queueInLoop 7, .finishCallback, .publish, .enter, .loop .test] _ :=
      .cons (.start rfl) <| .cons (.queueInLoop rfl) <| .cons (.finishCallback rfl) <|
        .cons (.publish rfl) <| .cons (.enter rfl) <| .single (.loop rfl rfl (.test rfl))
    exact Nat.lt_irrefl 0 (hall _ _ hrun rfl (by simp) nofun)

end Dxian
