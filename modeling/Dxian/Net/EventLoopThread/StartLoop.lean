import Dxian.Net.EventLoopThread

/-!
# Does `startLoop` return?

`startLoop` waits until `loop_` is set, and `threadFunc` sets it before it calls `loop`
and clears it after. A functor or a timer of the init callback may call `quit`, so that
`loop` is over before the owner, which has been notified, looks at `loop_` again. It
then waits for a notification that nobody will send.

## Main results

- `EventLoop.canExit` — a loop that has been told to quit can end
- `Waits.step`, `Waits.of_run` — `loop` goes on while the owner is in `startLoop`
- `LeftWaiting.run` — an owner that is left waiting waits forever
- `startLoop_returns` — which calls of `quit` the owner survives
-/

namespace Dxian

open Transition

namespace EventLoop

variable {T F C : Type} [DecidableEq T]

/-! ## A loop that has been told to quit -/

/-- The loop thread can reach the end of `loop` on its own. -/
def CanExit (l : EventLoop T F C) : Prop :=
  ∃ w m, (∀ x ∈ w, Action.thread x = .loop) ∧ (machine T F C).Run l w m ∧ m.pc = .exited

theorem CanExit.of_step {l m : EventLoop T F C} {x : Action T F C} (hstep : Step l x (.ok m))
    (hx : x.thread = .loop) (hm : CanExit m) : CanExit l := by
  obtain ⟨w, n, hw, hrun, hexit⟩ := hm
  exact ⟨x :: w, n, List.forall_mem_cons.mpr ⟨hx, hw⟩, .cons hstep hrun, hexit⟩

theorem canExit_testing {l : EventLoop T F C} (hquit : l.quit_ = true) (hpc : l.pc = .testing) :
    CanExit l :=
  ⟨[.test], _, by simp [Action.thread], .single (.test hpc), by simp [hquit]⟩

/-- The functors run one after the other. -/
theorem canExit_running {functors : List F} {l : EventLoop T F C} (hquit : l.quit_ = true)
    (hcall : l.calling .loop = .returned) (hpc : l.pc = .running none functors) : CanExit l := by
  induction functors generalizing l with
  | nil => exact .of_step (.finishFunctors hpc) rfl (canExit_testing hquit rfl)
  | cons f rest ih =>
    refine .of_step (.runFunctor hpc) rfl ?_
    exact .of_step (.finishFunctor rfl hcall) rfl (ih hquit hcall rfl)

theorem canExit_swapping {l : EventLoop T F C} (hquit : l.quit_ = true)
    (hcall : l.calling .loop = .returned) (hpc : l.pc = .swapping) : CanExit l :=
  .of_step (.swap hpc) rfl (canExit_running hquit hcall rfl)

/-- The channels are handled one after the other, then the functors run. -/
theorem canExit_handling {active : List (ActiveChannel C)} {l : EventLoop T F C}
    (hquit : l.quit_ = true) (hcall : l.calling .loop = .returned)
    (hpc : l.pc = .handling none active) : CanExit l := by
  induction active generalizing l with
  | nil => exact .of_step (.doPendingFunctors hpc) rfl (canExit_swapping hquit hcall rfl)
  | cons c rest ih =>
    cases c with
    | wakeupChannel => exact .of_step (.handleRead hpc) rfl (ih hquit hcall rfl)
    | channel c =>
      refine .of_step (.handleEvent hpc) rfl ?_
      exact .of_step (.finishEvent rfl hcall) rfl (ih hquit hcall rfl)

/-- With `quit_` set and no write owed, the loop thread can end `loop`, wherever it is. -/
theorem canExit {l : EventLoop T F C} (hquit : l.quit_ = true)
    (hcall : l.calling .loop = .returned) : CanExit l := by
  match hpc : l.pc with
  | .testing => exact canExit_testing hquit hpc
  | .polling =>
    have hpoll : Step l (.poll []) (.ok { l with pc := .handling none [] }) := .poll hpc
    exact .of_step hpoll rfl (canExit_handling hquit hcall rfl)
  | .handling none active => exact canExit_handling hquit hcall hpc
  | .handling (some c) active =>
    exact .of_step (.finishEvent hpc hcall) rfl (canExit_handling hquit hcall rfl)
  | .swapping => exact canExit_swapping hquit hcall hpc
  | .running none functors => exact canExit_running hquit hcall hpc
  | .running (some f) functors =>
    exact .of_step (.finishFunctor hpc hcall) rfl (canExit_running hquit hcall rfl)
  | .exited => exact ⟨[], l, nofun, .nil, hpc⟩

/-- Without a call of `quit` the loop does not end. -/
theorem Step.goes_on {l m : EventLoop T F C} {x : Action T F C} (h : Step l x (.ok m))
    (hx : ∀ t, x ≠ .quit t) (hquit : l.quit_ = false) (hpc : l.pc ≠ .exited) :
    m.quit_ = false ∧ m.pc ≠ .exited := by
  cases h with
  | quit => exact absurd rfl (hx _)
  | queueInLoop | wakeup => exact ⟨hquit, hpc⟩
  | test => exact ⟨hquit, by simp [hquit]⟩
  | _ => exact ⟨hquit, nofun⟩

end EventLoop

namespace EventLoopThread

variable {F C : Type} {s t : EventLoopThread F C} {a : Action F C} {v w : List (Action F C)}

/-- The owner has not returned from `startLoop`. -/
def OwnerPc.inStartLoop : OwnerPc → Bool
  | starting | testing | sleeping => true
  | _ => false

/-- The owner is in the wait loop of `startLoop`. -/
def OwnerPc.waiting : OwnerPc → Bool
  | testing | sleeping => true
  | _ => false

/-- `threadFunc` has executed `loop_ = NULL`. -/
def ThreadPc.left : ThreadPc → Bool
  | leaving | ended => true
  | _ => false

/-- The owner waits for a thread that has finished. -/
def LeftWaiting (s : EventLoopThread F C) : Prop :=
  s.thread.left = true ∧ s.owner.waiting = true

/-- Code that `loop` runs calls `quit` only after `startLoop` has returned. -/
def QuitsLater (v : List (Action F C)) (a : Action F C) : Prop :=
  a = .loop (.quit .loop) → ∀ s, (machine F C).Run fresh v s → s.owner.inStartLoop = false

/-! ## While the owner is in `startLoop` -/

/-- `loop` goes on as long as the owner has not returned from `startLoop`. -/
structure Waits (s : EventLoopThread F C) : Prop where
  looping : s.owner.inStartLoop = true → s.thread = .looping →
    s.loop.quit_ = false ∧ s.loop.pc ≠ .exited
  not_left : s.owner.inStartLoop = true → s.thread.left = false

/-- Steps that leave the loop thread where it is and bring the owner no further back. -/
theorem Waits.of_owner (h : Waits s) (hthread : t.thread = s.thread) (hloop : t.loop = s.loop)
    (howner : t.owner.inStartLoop = true → s.owner.inStartLoop = true) : Waits t where
  looping hin hpc := by
    rw [hloop]
    exact h.looping (howner hin) (hthread.symm.trans hpc)
  not_left hin := by
    rw [hthread]
    exact h.not_left (howner hin)

/-- **Step lemma.** -/
theorem Waits.step (h : Waits s) (hstep : Step s a (.ok t))
    (hquit : a = .loop (.quit .loop) → s.owner.inStartLoop = false) : Waits t := by
  cases hstep with
  | start hpc => exact ⟨nofun, fun _ => rfl⟩
  | test hpc | wakeSpuriously hpc => exact h.of_owner rfl rfl fun _ => by rw [hpc]; rfl
  | destruct hpc =>
    refine h.of_owner rfl rfl fun hin => ?_
    dsimp only at hin
    split at hin <;> cases hin
  | quit hpc hset => exact ⟨nofun, nofun⟩
  | wakeup hpc hthread => exact ⟨nofun, nofun⟩
  | join hpc hthread => exact ⟨nofun, nofun⟩
  | queueInLoop hpc | quitInCallback hpc =>
    refine ⟨fun _ hlooping => ?_, h.not_left⟩
    cases hpc.symm.trans hlooping
  | finishCallback hpc | publish hpc => exact ⟨nofun, fun _ => rfl⟩
  | enter hpc => exact ⟨fun _ _ => ⟨rfl, nofun⟩, fun _ => rfl⟩
  | @loop x l hpc hx hloop =>
    refine ⟨fun hin hlooping => ?_, h.not_left⟩
    obtain ⟨hgoing, hpc'⟩ := h.looping hin hpc
    refine hloop.goes_on (fun t ht => ?_) hgoing hpc'
    rw [ht] at hx
    rw [ht, show t = .loop from hx] at hquit
    cases hin.symm.trans (hquit rfl)
  | clear hpc hexit => exact ⟨nofun, fun hin => absurd hexit (h.looping hin hpc).2⟩
  | finish hpc =>
    refine ⟨nofun, fun hin => ?_⟩
    have hleft := h.not_left hin
    rw [hpc] at hleft
    cases hleft

/-- **Run lemma.** -/
theorem Waits.of_run (h : (machine F C).Run fresh w t) (hw : System.Respects QuitsLater w) :
    Waits t := by
  induction h with
  | nil => exact ⟨nofun, fun _ => rfl⟩
  | snoc hrun hstep ih =>
    obtain ⟨hbefore, hlast⟩ := System.respects_append_singleton.mp hw
    exact (ih hbefore).step hstep fun ha => hlast ha _ hrun

/-- The owner is past the wait loop only with the loop published. -/
theorem publish_mem_of_run (h : (machine F C).Run fresh w t)
    (ht : t.loop_ = true ∨ t.owner.inStartLoop = false) : .publish ∈ w := by
  induction h with
  | nil => simp [fresh, OwnerPc.inStartLoop] at ht
  | snoc _ hstep ih =>
    cases hstep with
    | publish hpc => simp
    | test hpc =>
      refine List.mem_append_left _ (ih (.inl ?_))
      by_contra hset
      simp [hset, OwnerPc.inStartLoop] at ht
    | start hpc =>
      refine List.mem_append_left _ (ih (.inl (ht.resolve_right nofun)))
    | wakeSpuriously hpc => exact List.mem_append_left _ (ih (.inl (ht.resolve_right nofun)))
    | destruct hpc | quit hpc _ | wakeup hpc _ | join hpc _ =>
      exact List.mem_append_left _ (ih (.inr (by rw [hpc]; rfl)))
    | clear hpc hexit => exact List.mem_append_left _ (ih (.inr (ht.resolve_left nofun)))
    | queueInLoop | quitInCallback | finishCallback | enter | loop | finish =>
      exact List.mem_append_left _ (ih ht)

/-! ## After an early `quit` -/

/-- Steps of the loop are steps of the thread. -/
theorem run_loop {l : EventLoop PUnit F C} {x : List (EventLoop.Action PUnit F C)}
    (h : (EventLoop.machine PUnit F C).Run s.loop x l) (hpc : s.thread = .looping)
    (hx : ∀ y ∈ x, EventLoop.Action.thread y = .loop) :
    (machine F C).Run s (x.map Action.loop) { s with loop := l } := by
  induction h with
  | nil => exact .nil
  | @snoc x m n y _ hstep ih =>
    rw [List.map_append]
    exact (ih fun y hy => hx y (by simp [hy])).snoc (.loop hpc (hx y (by simp)) hstep)

/-- An owner that is left waiting is woken by nobody. -/
theorem LeftWaiting.step (h : LeftWaiting s) (hset : s.loop_ = false)
    (hstep : Step s a (.ok t)) : LeftWaiting t ∧ t.loop_ = false := by
  obtain ⟨hleft, hwaiting⟩ := h
  cases hstep with
  | test hpc => exact ⟨⟨hleft, by simp [hset, OwnerPc.waiting]⟩, hset⟩
  | wakeSpuriously hpc => exact ⟨⟨hleft, rfl⟩, hset⟩
  | finish hpc => exact ⟨⟨rfl, hwaiting⟩, hset⟩
  | start hpc | destruct hpc | quit hpc _ | wakeup hpc _ | join hpc _ =>
    rw [hpc] at hwaiting
    cases hwaiting
  | queueInLoop hpc | quitInCallback hpc | finishCallback hpc | publish hpc | enter hpc
  | loop hpc _ _ | clear hpc _ =>
    rw [hpc] at hleft
    cases hleft

/-- **Run lemma.** It waits forever. -/
theorem LeftWaiting.run (h : LeftWaiting s) (hset : s.loop_ = false)
    (hrun : (machine F C).Run s w t) : LeftWaiting t := by
  have hstuck : LeftWaiting t ∧ t.loop_ = false :=
    hrun.preserves (P := fun _ => True) (I := fun s => LeftWaiting s ∧ s.loop_ = false)
      (fun _ hI hstep => hI.1.step hI.2 hstep) (fun _ _ => trivial) ⟨h, hset⟩
  exact hstuck.1

/-- Code that `loop` runs calls `quit` while the owner is in `startLoop`: `loop` can end
before the owner looks at `loop_`. -/
theorem exists_leftWaiting (h : (machine F C).Run fresh v s)
    (hquit : Step s (.loop (.quit .loop)) (.ok t)) (hin : s.owner.inStartLoop = true) :
    ∃ u r, (machine F C).Run t u r ∧ LeftWaiting r ∧ r.loop_ = false := by
  cases hquit with
  | @loop _ l hpc _ hstep =>
    have hwaiting : s.owner.waiting = true := by
      have hstarting : s.owner ≠ .starting := fun hs => by
        cases hpc.symm.trans ((History.of_run h).starting hs)
      match howner : s.owner with
      | .testing | .sleeping => rfl
      | .starting => exact absurd howner hstarting
      | .returned | .quitting | .waking | .joining | .destroyed =>
        rw [howner] at hin
        cases hin
    cases hstep with
    | quit hcall _ =>
      obtain ⟨x, m, hx, hrun, hexit⟩ := EventLoop.canExit (l := s.loop.quit .loop) rfl hcall
      have hlifted := run_loop (s := { s with loop := s.loop.quit .loop }) hrun hpc hx
      exact ⟨_, _, hlifted.snoc (.clear hpc hexit), ⟨rfl, hwaiting⟩, rfl⟩

/-- **When `startLoop` returns.** In every run in which the functors, timers and other
callbacks of `loop` call `quit` only after `startLoop` has returned, the owner is never
left waiting. In every run the pointer that `startLoop` returns has been published. After
every run up to an earlier `quit` the owner may be left waiting, and it then waits
forever. -/
theorem startLoop_returns (F C : Type) :
    (∀ w t, (machine F C).Run fresh w t → System.Respects QuitsLater w → ¬ LeftWaiting t) ∧
    (∀ w s t, (machine F C).Run fresh w s → Step s .test (.ok t) → t.owner = .returned →
      s.loop_ = true ∧ .publish ∈ w) ∧
    ∀ v s s', (machine F C).Run fresh v s → Step s (.loop (.quit .loop)) (.ok s') →
      s.owner.inStartLoop = true →
      ∃ u t, (machine F C).Run s' u t ∧ ∀ u' t', (machine F C).Run t u' t' → LeftWaiting t' := by
  refine ⟨fun w t h hw => ?_, fun w s t h hstep howner => ?_, fun v s s' h hquit hin => ?_⟩
  · intro ⟨hleft, hwaiting⟩
    have hin : t.owner.inStartLoop = true := by
      match howner : t.owner with
      | .starting | .testing | .sleeping => rfl
      | .returned | .quitting | .waking | .joining | .destroyed =>
        rw [howner] at hwaiting
        cases hwaiting
    cases hleft.symm.trans ((Waits.of_run h hw).not_left hin)
  · cases hstep with
    | test hpc =>
      have hset : s.loop_ = true := by
        by_contra hset
        simp [hset] at howner
      exact ⟨hset, publish_mem_of_run h (.inl hset)⟩
  · obtain ⟨u, t, hrun, hleft, hset⟩ := exists_leftWaiting h hquit hin
    exact ⟨u, t, hrun, fun u' t' => hleft.run hset⟩

theorem quitsLater_of_ne (v : List (Action F C)) (ha : a ≠ .loop (.quit .loop)) :
    QuitsLater v a :=
  fun heq => absurd heq ha

/-- The owner does not get back into `startLoop`. -/
theorem Step.owner_returned (h : Step s a (.ok t)) (hs : s.owner.inStartLoop = false) :
    t.owner.inStartLoop = false := by
  cases h with
  | start hpc | test hpc | wakeSpuriously hpc =>
    rw [hpc] at hs
    cases hs
  | destruct hpc =>
    dsimp only
    split <;> rfl
  | quit | wakeup | join => rfl
  | publish hpc =>
    dsimp only
    split
    · next hsleeping =>
      rw [hsleeping] at hs
      cases hs
    · exact hs
  | queueInLoop | quitInCallback | finishCallback | enter | loop | clear | finish => exact hs

theorem owner_returned_of_run (h : (machine F C).Run s w t)
    (hs : s.owner.inStartLoop = false) : t.owner.inStartLoop = false := by
  induction h with
  | nil => exact hs
  | snoc _ hstep ih => exact Step.owner_returned hstep ih

/-! ## Two runs -/

/-- The owner is asleep when a functor of the init callback starts. -/
theorem run_functor : (machine ℕ ℕ).Run fresh [.start, .test, .queueInLoop 7, .finishCallback,
    .publish, .enter, .loop .test, .loop (.poll []), .loop .doPendingFunctors, .loop .swap,
    .loop (.runFunctor 7)]
    ⟨true, ⟨false, true, [], 0, .running (some 7) [], fun _ => .returned⟩, .looping, .testing⟩ := by
  have hpublished : (machine ℕ ℕ).Run fresh [.start, .test, .queueInLoop 7, .finishCallback,
      .publish] ⟨true, ⟨false, false, [7], 0, .exited, fun _ => .returned⟩, .entering, .testing⟩ :=
    .cons (.start rfl) <| .cons (.test rfl) <| .cons (.queueInLoop rfl) <|
      .cons (.finishCallback rfl) <| .single (.publish rfl)
  exact hpublished.append <| .cons (.enter rfl) <| .cons (.loop rfl rfl (.test rfl)) <|
    .cons (.loop rfl rfl (.poll rfl)) <| .cons (.loop rfl rfl (.doPendingFunctors rfl)) <|
    .cons (.loop rfl rfl (.swap rfl)) <| .single (.loop rfl rfl (.runFunctor rfl))

/-- `startLoop` returns, and a channel callback calls `quit`. A functor of the init
callback calls it while the owner has not returned. -/
theorem startLoop_returns_before_quit :
    (∃ t, (machine ℕ ℕ).Run fresh ([.start, .finishCallback, .publish, .test] ++
        [.enter, .loop .test, .loop (.poll [.channel 0]), .loop (.handleEvent 0)] ++
        [.loop (.quit .loop)] ++ [.loop .finishEvent, .loop .doPendingFunctors, .loop .swap,
          .loop .finishFunctors, .loop .test, .clear]) t ∧ ¬ LeftWaiting t) ∧
    ∃ w t, (machine ℕ ℕ).Run fresh ([.start, .test, .queueInLoop 7, .finishCallback, .publish,
        .enter, .loop .test, .loop (.poll []), .loop .doPendingFunctors, .loop .swap,
        .loop (.runFunctor 7)] ++ .loop (.quit .loop) :: w) t ∧ LeftWaiting t := by
  obtain ⟨hkept, -, hlost⟩ := startLoop_returns ℕ ℕ
  constructor
  · have hreturned : (machine ℕ ℕ).Run fresh [.start, .finishCallback, .publish, .test]
        ⟨true, ⟨false, false, [], 0, .exited, fun _ => .returned⟩, .entering, .returned⟩ :=
      .cons (.start rfl) <| .cons (.finishCallback rfl) <| .cons (.publish rfl) <|
        .single (.test rfl)
    have hcallback : (machine ℕ ℕ).Run
        ⟨true, ⟨false, false, [], 0, .exited, fun _ => .returned⟩, .entering, .returned⟩
        [.enter, .loop .test, .loop (.poll [.channel 0]), .loop (.handleEvent 0)]
        ⟨true, ⟨false, false, [], 0, .handling (some 0) [], fun _ => .returned⟩, .looping,
          .returned⟩ :=
      .cons (.enter rfl) <| .cons (.loop rfl rfl (.test rfl)) <|
        .cons (.loop rfl rfl (.poll rfl)) <| .single (.loop rfl rfl (.handleEvent rfl))
    have hquit : (machine ℕ ℕ).Run
        ⟨true, ⟨false, false, [], 0, .handling (some 0) [], fun _ => .returned⟩, .looping,
          .returned⟩ [.loop (.quit .loop)]
        ⟨true, ⟨true, false, [], 0, .handling (some 0) [], fun _ => .returned⟩, .looping,
          .returned⟩ :=
      .single (.loop rfl rfl (.quit rfl fun _ => trivial))
    have hexit : (machine ℕ ℕ).Run
        ⟨true, ⟨true, false, [], 0, .handling (some 0) [], fun _ => .returned⟩, .looping,
          .returned⟩ [.loop .finishEvent, .loop .doPendingFunctors, .loop .swap,
            .loop .finishFunctors, .loop .test, .clear] _ :=
      .cons (.loop rfl rfl (.finishEvent rfl rfl)) <|
        .cons (.loop rfl rfl (.doPendingFunctors rfl)) <| .cons (.loop rfl rfl (.swap rfl)) <|
        .cons (.loop rfl rfl (.finishFunctors rfl)) <| .cons (.loop rfl rfl (.test rfl)) <|
        .single (.clear rfl rfl)
    have hafter : ∀ s, (machine ℕ ℕ).Run fresh [.start, .finishCallback, .publish, .test] s →
        s.owner.inStartLoop = false := by
      intro s hs
      obtain ⟨s₁, hstart, hs⟩ := hs.head
      obtain ⟨s₂, hfinish, hs⟩ := hs.head
      obtain ⟨s₃, hpublish, hs⟩ := hs.head
      obtain ⟨s₄, htest, hs⟩ := hs.head
      cases hstart
      cases hfinish
      cases hpublish
      cases htest
      rw [hs.eq_of_nil]
      rfl
    have hbefore := ((System.respects_nil (QuitsLater (F := ℕ) (C := ℕ))).append
      (w := [.start, .finishCallback, .publish, .test])
      (by simp [quitsLater_of_ne])).append
      (w := [.enter, .loop .test, .loop (.poll [.channel 0]), .loop (.handleEvent 0)])
      (by simp [quitsLater_of_ne])
    have hlater := System.respects_append_singleton.mpr ⟨hbefore,
      show QuitsLater _ (.loop (.quit .loop)) from fun _ s hs => by
        obtain ⟨t, ht, hrest⟩ := hs.split
        exact owner_returned_of_run hrest (hafter t ht)⟩
    have hw := hlater.append (w := [.loop .finishEvent, .loop .doPendingFunctors, .loop .swap,
      .loop .finishFunctors, .loop .test, .clear]) (by simp [quitsLater_of_ne])
    have hrun := ((hreturned.append hcallback).append hquit).append hexit
    exact ⟨_, hrun, hkept _ _ hrun hw⟩
  · obtain ⟨w, t, ht, hleft⟩ :=
      hlost _ _ _ run_functor (.loop rfl rfl (.quit rfl fun _ => trivial)) rfl
    exact ⟨w, t, run_functor.append (.cons (.loop rfl rfl (.quit rfl fun _ => trivial)) ht),
      hleft [] t .nil⟩

/-- A functor of the init callback calls `quit`, and `loop` is over before the owner looks
at `loop_` again. -/
theorem startLoop_left_waiting :
    ¬ ∀ w t, (machine ℕ ℕ).Run fresh w t → ¬ LeftWaiting t := by
  intro hall
  have hmissed : (machine ℕ ℕ).Run
      ⟨true, ⟨false, true, [], 0, .running (some 7) [], fun _ => .returned⟩, .looping, .testing⟩
      [.loop (.quit .loop), .loop .finishFunctor, .loop .finishFunctors, .loop .test, .clear,
        .finish, .test] _ :=
    .cons (.loop rfl rfl (.quit rfl fun _ => trivial)) <|
      .cons (.loop rfl rfl (.finishFunctor rfl rfl)) <|
      .cons (.loop rfl rfl (.finishFunctors rfl)) <| .cons (.loop rfl rfl (.test rfl)) <|
      .cons (.clear rfl rfl) <| .cons (.finish rfl) <| .single (.test rfl)
  exact hall _ _ (run_functor.append hmissed) ⟨rfl, rfl⟩

end EventLoopThread

end Dxian
