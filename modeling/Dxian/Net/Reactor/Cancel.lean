import Dxian.Net.Reactor.Invariant
import Dxian.Net.TimerQueue.Cancellation

/-!
# Cancelling from any thread

The functor queue keeps `addTimer` and `cancel` in order, as long as both go
through it. On the loop thread `cancel` does not: there `runInLoop` calls
`cancelInLoop` at once, ahead of an `addTimerInLoop` of another thread that is
still queued. Such a cancel finds nothing to cancel, and the timer is inserted
after it.

## Main results

- `queued_cancel` — what stands in the queue before a `cancelInLoop`
- `cancel_takes_effect` — a cancel that does not overtake its `addTimer` is final
- `cancelled_timer_inserted` — a run in which it does
-/

namespace Dxian

open Transition

namespace Reactor

variable {T F C : Type*}

variable [DecidableEq T] {s s' u : Reactor T F C} {x : Action T F C}

theorem Effect.doomed (h : Effect s x s') (inv : Invariant s) {a : ActiveTimer}
    (hs : s.timers.Doomed a) : s'.timers.Doomed a := by
  rcases h.timers_cases inv with ⟨-, heq⟩ | ⟨y, -, heff⟩
  · rwa [heq]
  · exact heff.doomed inv.timers hs

/-- The Timer of `a` has arrived, or its functor is among `l`. -/
def Before (s : Reactor T F C) (a : ActiveTimer) (l : List (LoopFunctor F)) : Prop :=
  a ∈ s.timers.handed ∨ .addTimerInLoop a ∈ l

/-- **Step lemma**: a queued `cancelInLoop` moves up until it is run, and by then
the Timer has arrived if its `addTimerInLoop` was ahead. -/
theorem Effect.queued_cancel (h : Effect s x s') (inv : Invariant s) {id : TimerId}
    {l r : List (LoopFunctor F)} (hout : s.loop.outstanding = l ++ .cancelInLoop id :: r)
    (hbefore : s.Before id.toActive l) : s'.timers.Doomed id.toActive ∨
      ∃ l' r', s'.loop.outstanding = l' ++ .cancelInLoop id :: r' ∧
        x.ran.length + l'.length = l.length ∧ s'.Before id.toActive l' := by
  have hfifo := h.outstanding_eq
  have hmono : id.toActive ∈ s.timers.handed → id.toActive ∈ s'.timers.handed := by
    intro hin
    rw [h.handed_eq inv]
    exact List.mem_append_right _ hin
  have hstay : x.ran = [] → ∃ l' r', s'.loop.outstanding = l' ++ .cancelInLoop id :: r' ∧
      x.ran.length + l'.length = l.length ∧ s'.Before id.toActive l' := by
    intro hran
    rw [hran, List.nil_append, hout] at hfifo
    exact ⟨l, r ++ x.pushed, by rw [← hfifo]; simp, by simp [hran], hbefore.imp_left hmono⟩
  cases x with
  | runFunctor f clock =>
    have hhead : l ++ .cancelInLoop id :: r = f :: s'.loop.outstanding := by
      rw [hout] at hfifo
      simpa [Action.pushed, Action.ran, Action.loopLabel, EventLoop.Action.pushed,
        EventLoop.Action.ran] using hfifo
    cases l with
    | nil =>
      -- its turn: the Timer is in the queue or gone
      obtain ⟨rfl, -⟩ := List.cons.inj hhead
      have hin : id.toActive ∈ s.timers.handed := hbefore.resolve_right List.not_mem_nil
      have heff : TimerQueue.Effect s.timers (.cancelInLoop id) s'.timers :=
        TimerQueue.Step.effect_of_ok inv.timers h.timers
      exact .inl (heff.doomed_of_cancel inv.timers hin)
    | cons g l =>
      obtain ⟨rfl, htail⟩ := List.cons.inj hhead
      refine .inr ⟨l, r, htail.symm, ?_, ?_⟩
      · simp only [Action.ran, Action.loopLabel, Option.elim, EventLoop.Action.ran,
          List.length_cons, List.length_nil]
        omega
      · rcases hbefore with hin | hadd
        · exact .inl (hmono hin)
        · rcases List.mem_cons.mp hadd with rfl | hadd
          · refine .inl ?_
            rw [h.handed_eq inv]
            exact List.mem_append_left _ (List.mem_singleton_self _)
          · exact .inr hadd
  | loop y => exact .inr (hstay (Internal.pushed h.guard.2.2).2)
  | publish t | cancel t => cases t <;> exact .inr (hstay rfl)
  | _ => exact .inr (hstay rfl)

/-- **Run lemma**: the same over a run, counting the functors that were started. -/
theorem queued_cancel {w : List (Action T F C)} (hs : (machine T F C).Reachable s)
    (h : (machine T F C).Run s w u) {id : TimerId} {l r : List (LoopFunctor F)}
    (hout : s.loop.outstanding = l ++ .cancelInLoop id :: r)
    (hbefore : s.Before id.toActive l) : u.timers.Doomed id.toActive ∨
      ∃ l' r', u.loop.outstanding = l' ++ .cancelInLoop id :: r' ∧
        (w.flatMap Action.ran).length + l'.length = l.length ∧ u.Before id.toActive l' := by
  induction h with
  | nil => exact .inr ⟨l, r, hout, by simp, hbefore⟩
  | @snoc w u v x hrun hstep ih =>
    have hu := hs.run hrun
    have inv := reachable_invariant hu
    have heff := reachable_effect hu hstep
    rcases ih with hdoomed | ⟨l', r', hout', hlen, hbefore'⟩
    · exact .inl (heff.doomed inv hdoomed)
    · rcases heff.queued_cancel inv hout' hbefore' with hdoomed | ⟨l'', r'', hout'', hlen', hb⟩
      · exact .inl hdoomed
      · refine .inr ⟨l'', r'', hout'', ?_, hb⟩
        simp only [List.flatMap_append, List.flatMap_singleton, List.length_append]
        omega

/-- A doomed timer stays doomed. -/
theorem run_doomed {w : List (Action T F C)} (hs : (machine T F C).Reachable s)
    (h : (machine T F C).Run s w u) {a : ActiveTimer} (hd : s.timers.Doomed a) :
    u.timers.Doomed a := by
  induction h with
  | nil => exact hd
  | snoc hrun hstep ih =>
    exact (reachable_effect (hs.run hrun) hstep).doomed (reachable_invariant (hs.run hrun)) ih

/-- `a` is in neither set. An entry of `timers_` belongs to the Timer that its
pointer leads to. -/
def Absent (s : Reactor T F C) (a : ActiveTimer) : Prop :=
  a ∉ s.timers.queue.activeTimers ∧
    ∀ e, (⟨e, a.timer⟩ : Entry) ∈ s.timers.queue.timers →
      ∃ v, s.timers.queue.mem.timerAt a.timer = some v ∧ v.sequence ≠ a.sequence

omit [DecidableEq T] in
theorem Invariant.absent (inv : Invariant s) {a : ActiveTimer} (h : s.timers.Doomed a) :
    s.Absent a := by
  have hactive := h.not_active inv.timers
  refine ⟨hactive, fun e he => ?_⟩
  obtain ⟨v, hv, -, ha⟩ := (inv.timers.consistent.timers_iff e a.timer).mp he
  refine ⟨v, hv, fun hseq => hactive ?_⟩
  rw [hseq] at ha
  exact ha

/-- **A cancel is not lost** unless it overtakes its `addTimer`. Let the call of
`addTimer` for the Timer `a` have returned `id`, and let some thread call
`cancel(id)` then. If the caller is the loop thread, let the functor of that
`addTimer` not be queued any more. In every state after the cancel has been
executed, `a` is in neither set. On the loop thread `cancel` is executed at once;
from another thread it is when the functors queued before it, and its own, have
been started. -/
theorem cancel_takes_effect {s₁ : Reactor T F C} {t : Thread T} {a : ActiveTimer} {id : TimerId}
    {w : List (Action T F C)} (hs : (machine T F C).Reachable s) (hret : (a, id) ∈ s.returned)
    (hstep : (machine T F C).step s (.cancel t id) (.ok s₁))
    (hcond : t = .loop → .addTimerInLoop a ∉ s.loop.outstanding)
    (hw : (machine T F C).Run s₁ w u)
    (hexec : t = .loop ∨ s.loop.outstanding.length < (w.flatMap Action.ran).length) :
    u.Absent a := by
  have inv := reachable_invariant hs
  have heff := reachable_effect hs hstep
  have hs₁ := hs.step hstep
  have hu := hs₁.run hw
  refine (reachable_invariant hu).absent ?_
  rcases inv.returned a id hret with hdel | ⟨rfl, harrived⟩
  · -- the Timer is gone already, and `id` may be of another one
    exact run_doomed hs₁ hw (heff.doomed inv (.inl hdel))
  · cases t with
    | loop =>
      have hin : id.toActive ∈ s.timers.handed :=
        harrived.resolve_right fun hadd => hcond rfl (mem_adds.mp hadd)
      have hcancel : TimerQueue.Effect s.timers (.cancelInLoop id) s₁.timers :=
        TimerQueue.Step.effect_of_ok inv.timers heff.timers
      exact run_doomed hs₁ hw (hcancel.doomed_of_cancel inv.timers hin)
    | other t =>
      have hout : s₁.loop.outstanding = s.loop.outstanding ++ [.cancelInLoop id] := by
        simpa [Action.pushed, Action.ran, Action.loopLabel, EventLoop.Action.pushed,
          EventLoop.Action.ran] using heff.outstanding_eq.symm
      have hbefore : s₁.Before id.toActive s.loop.outstanding := by
        refine harrived.imp (fun hin => ?_) mem_adds.mp
        rw [heff.handed_eq inv]
        exact hin
      rcases queued_cancel hs₁ hw hout hbefore with hdoomed | ⟨l', r', -, hlen, -⟩
      · exact hdoomed
      · have hlt := hexec.resolve_left (by simp)
        omega

/-- Another thread calls `runAt`. -/
def addFromOther : List (Action Unit Unit Unit) :=
  [.newTimer (.other ()) 8 ⟨100⟩ .zero, .publish (.other ()) ⟨8, 1⟩ ⟨50⟩, .wakeup (.other ()),
    .readSequence (.other ()) ⟨8, 1⟩ ⟨8, 1⟩]

/-- Another thread adds a timer and cancels it. -/
theorem cancel_takes_effect_from_other : ∃ s s₁ u : Reactor Unit Unit Unit,
    (machine Unit Unit Unit).Run (fresh Unit Unit Unit) addFromOther s ∧
    (machine Unit Unit Unit).step s (.cancel (.other ()) ⟨8, 1⟩) (.ok s₁) ∧
    (machine Unit Unit Unit).Run s₁
      [.loop .test, .loop (.poll []), .loop .doPendingFunctors, .loop .swap,
        .runFunctor (.addTimerInLoop ⟨8, 1⟩) ⟨50⟩, .loop .finishFunctor,
        .runFunctor (.cancelInLoop ⟨8, 1⟩) ⟨50⟩] u ∧
    u.Absent ⟨8, 1⟩ := by
  let w : List (Action Unit Unit Unit) :=
    [.loop .test, .loop (.poll []), .loop .doPendingFunctors, .loop .swap,
      .runFunctor (.addTimerInLoop ⟨8, 1⟩) ⟨50⟩, .loop .finishFunctor,
      .runFunctor (.cancelInLoop ⟨8, 1⟩) ⟨50⟩]
  obtain ⟨s, hrun, hP⟩ := exists_run (s := fresh Unit Unit Unit) (w := addFromOther)
    (P := fun s => (⟨8, 1⟩, ⟨8, 1⟩) ∈ s.returned && s.loop.outstanding.length = 1 &&
      (next s (.cancel (.other ()) ⟨8, 1⟩)).any fun s₁ => (w.foldlM next s₁).isSome) (by decide)
  simp only [Bool.and_eq_true, decide_eq_true_eq] at hP
  obtain ⟨⟨hret, hlen⟩, hnext⟩ := hP
  obtain ⟨s₁, hs₁, hw⟩ := Option.any_eq_true .. |>.mp hnext
  obtain ⟨u, hu⟩ := Option.isSome_iff_exists.mp hw
  have hs := (System.Reachable.of_init (fresh_init Unit Unit Unit)).run hrun
  have hrun₁ := System.Run.of_foldlM (M := machine Unit Unit Unit) step_of_next hu
  refine ⟨s, s₁, u, hrun, step_of_next hs₁, hrun₁, ?_⟩
  exact cancel_takes_effect hs hret (step_of_next hs₁) (by simp) hrun₁
    (.inr (by rw [hlen]; decide))

/-- A cancel may be lost: the handler of a channel cancels, on the loop thread, a
timer that another thread has added; its `addTimerInLoop` is still queued, and
inserts it afterwards. -/
theorem cancelled_timer_inserted : ¬ ∀ (s s₁ u : Reactor Unit Unit Unit) (t : Thread Unit)
    (a : ActiveTimer) (id : TimerId) (w : List (Action Unit Unit Unit)),
    (machine Unit Unit Unit).Reachable s → (a, id) ∈ s.returned →
    (machine Unit Unit Unit).step s (.cancel t id) (.ok s₁) →
    (machine Unit Unit Unit).Run s₁ w u →
    (t = .loop ∨ s.loop.outstanding.length < (w.flatMap Action.ran).length) →
    a ∈ u.timers.handed → u.Absent a := by
  intro hclaim
  let w : List (Action Unit Unit Unit) :=
    [.loop .finishEvent, .loop .doPendingFunctors, .loop .swap,
      .runFunctor (.addTimerInLoop ⟨8, 1⟩) ⟨50⟩]
  obtain ⟨s, hrun, hP⟩ := exists_run (s := fresh Unit Unit Unit)
    (w := addFromOther ++
      [.loop .test, .loop (.poll [.channel (.user ())]), .loop (.handleEvent (.user ()))])
    (P := fun s => (⟨8, 1⟩, ⟨8, 1⟩) ∈ s.returned && (next s (.cancel .loop ⟨8, 1⟩)).any fun s₁ =>
      (w.foldlM next s₁).any fun u => (⟨8, 1⟩ : ActiveTimer) ∈ u.timers.handed &&
        (⟨8, 1⟩ : ActiveTimer) ∈ u.timers.queue.activeTimers) (by decide)
  simp only [Bool.and_eq_true, decide_eq_true_eq] at hP
  obtain ⟨hret, hnext⟩ := hP
  obtain ⟨s₁, hs₁, hw⟩ := Option.any_eq_true .. |>.mp hnext
  obtain ⟨u, hu, hin⟩ := Option.any_eq_true .. |>.mp hw
  simp only [Bool.and_eq_true, decide_eq_true_eq] at hin
  have hs := (System.Reachable.of_init (fresh_init Unit Unit Unit)).run hrun
  have habsent := hclaim s s₁ u .loop ⟨8, 1⟩ ⟨8, 1⟩ w hs hret (step_of_next hs₁)
    (.of_foldlM step_of_next hu) (.inl rfl) hin.1
  exact habsent.1 hin.2

end Reactor

end Dxian
