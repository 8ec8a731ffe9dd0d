import Dxian.Net.Reactor.Invariant
import Dxian.Net.TimerQueue.Destruct

/-!
# What the destructor of a loop leaves on the heap

A Timer belongs to the thread that allocates it, then to a functor in the queue, and
from `addTimerInLoop` on to the timer queue. The destructor of the loop deletes what its timer
queue owns; a functor of `addTimer` holds a bare pointer, and deletes nothing.

## Main results

- `Effect.found` — a live Timer has been handed over, or is on its way
- `timers_deleted_or_leaked` — after the destructor, who is deleted and who is left
-/

namespace Dxian

open Transition

namespace Reactor

variable {T F C : Type*}

/-- No live Timer is lost before the timer queue gets it. -/
def Found (s : Reactor T F C) : Prop :=
  ∀ p t, s.timers.queue.mem.timerAt p = some t →
    (⟨p, t.sequence⟩ : ActiveTimer) ∈ s.timers.handed ∨ s.OnItsWay ⟨p, t.sequence⟩

variable [DecidableEq T] {s s' : Reactor T F C} {x : Action T F C}

/-- A Timer on its way stays on its way until it arrives. -/
theorem Effect.onItsWay_or_handed (h : Effect s x s') (inv : Invariant s) {a : ActiveTimer}
    (ha : s.OnItsWay a) : a ∈ s'.timers.handed ∨ s'.OnItsWay a := by
  rcases ha with ha | ⟨t, when, interval, ha⟩
  · exact (h.arrives inv (.inr ha)).imp_right .inl
  · have hguard := h.guard
    rcases x.addingAfter_cases s t with ⟨heq, -⟩ | ⟨p, when', interval', rfl, -⟩ |
      ⟨b, clock, rfl, -⟩ | ⟨b, id, rfl, -⟩
    · exact .inr (.inr ⟨t, when, interval, by rw [h.adding, heq, ha]⟩)
    · cases ha.symm.trans hguard.1
    · obtain ⟨when', interval', hall⟩ := hguard
      cases ha.symm.trans hall
      cases t with
      | loop =>
        refine .inl ?_
        rw [h.handed_eq inv]
        exact List.mem_append_left _ (List.mem_singleton_self a)
      | other t =>
        have hadds : s.adds ++ [a] = [] ++ s'.adds := h.adds_eq
        rw [List.nil_append] at hadds
        exact .inr (.inl (hadds ▸ List.mem_append_right _ (List.mem_singleton_self a)))
    · obtain ⟨-, ⟨when', interval', hpub⟩, -⟩ := hguard
      cases ha.symm.trans hpub

/-- **Step lemma.** -/
theorem Effect.found (h : Effect s x s') (inv : Invariant s) (hs : s.Found) : s'.Found := by
  intro p v hv
  have hold : ∀ {u}, s.timers.queue.mem.timerAt p = some u → u.sequence = v.sequence →
      (⟨p, v.sequence⟩ : ActiveTimer) ∈ s'.timers.handed ∨ s'.OnItsWay ⟨p, v.sequence⟩ := by
    intro u hu hseq
    rw [← hseq]
    rcases hs p u hu with hhanded | hway
    · rw [h.handed_eq inv]
      exact .inl (List.mem_append_right _ hhanded)
    · exact h.onItsWay_or_handed inv hway
  rcases h.timers_cases inv with ⟨-, heq⟩ | ⟨y, hy, heff⟩
  · rw [heq] at hv
    exact hold hv rfl
  · rcases heff.live_of inv.timers hv with ⟨u, hu, hseq⟩ | ⟨hseq, when, interval, rfl⟩
    · exact hold hu hseq
    · -- a new Timer belongs to the thread that has created it
      cases x with
      | newTimer t q when' interval' =>
        cases hy
        refine .inr (.inr ⟨t, when, interval, ?_⟩)
        rw [h.adding, hseq]
        exact Function.update_self ..
      | publish t a clock => cases t <;> cases hy
      | cancel t id => cases t <;> cases hy
      | runFunctor f clock => cases f <;> cases hy
      | readSequence | queueInLoop | quit | wakeup | loop => cases hy
      | handleRead | runTimer | reset => cases hy

/-- **Run lemma.** -/
theorem found_of_run {w : List (Action T F C)} (h : (machine T F C).Run (fresh T F C) w s) :
    s.Found ∧ ∀ a, a ∈ s.timers.handed ↔ ∃ x ∈ w, a ∈ x.handedOver := by
  have hinit : (machine T F C).Reachable (fresh T F C) := .of_init (fresh_init T F C)
  induction h with
  | nil => exact ⟨nofun, fun a => by simp [fresh]⟩
  | snoc hrun hstep ih =>
    have inv := reachable_invariant (hinit.run hrun)
    have heff := reachable_effect (hinit.run hrun) hstep
    refine ⟨heff.found inv ih.1, fun a => ?_⟩
    rw [heff.handed_eq inv, List.mem_append, ih.2 a, or_comm]
    simp [or_and_right, exists_or]

/-- **The Timers of a loop that is destroyed.** In every run of the threads of a program from
the start of `loop` on, with no Timer created before, when `loop` has returned: the destructor
deletes no Timer twice.
Then the Timers that are deleted are exactly those whose `addTimerInLoop` has been called. Those
that are left are the ones whose functor is still queued and the ones a thread has created
and not queued yet; there is no other. -/
theorem timers_deleted_or_leaked {w : List (Action T F C)}
    (h : (machine T F C).Run (fresh T F C) w s) (hpc : s.loop.pc = .exited) :
    ∃ mem, s.timers.queue.destruct = .ok mem ∧
      (∀ n, n ∈ mem.deleted ↔ ∃ x ∈ w, ∃ a ∈ x.handedOver, a.sequence = n) ∧
      (∀ p t, mem.timerAt p = some t ↔ s.timers.queue.mem.timerAt p = some t ∧
        (.addTimerInLoop ⟨p, t.sequence⟩ ∈ s.loop.pendingFunctors ∨
          ∃ u when interval, s.adding u = .allocated ⟨p, t.sequence⟩ when interval)) ∧
      ∀ n, 0 < n → n ≤ mem.numCreated →
        n ∈ mem.deleted ∨ ∃ p t, mem.timerAt p = some t ∧ t.sequence = n := by
  have hinit : (machine T F C).Reachable (fresh T F C) := .of_init (fresh_init T F C)
  have hreach : (machine T F C).Reachable s := hinit.run h
  have inv := reachable_invariant hreach
  obtain ⟨hfound, hhanded⟩ := found_of_run h
  have hidle : s.timers.phase = .idle := inv.idle fun active heq => by cases hpc.symm.trans heq
  obtain ⟨mem, hmem, hcreated, hdeleted, hlive⟩ := inv.timers.destruct hidle
  obtain ⟨honly, haccounted⟩ : s.timers.OnlyHanded ∧ s.timers.Accounted :=
    TimerQueue.onlyHanded_and_accounted (timerProjection.run hinit h)
  have hway : ∀ a, s.OnItsWay a ↔ .addTimerInLoop a ∈ s.loop.pendingFunctors ∨
      ∃ u when interval, s.adding u = .allocated a when interval := by
    intro a
    rw [OnItsWay, mem_adds, EventLoop.outstanding, hpc]
    rfl
  refine ⟨mem, hmem, fun n => ?_, fun p t => ?_, fun n hpos hle => ?_⟩
  · rw [hdeleted]
    constructor
    · rintro (hn | ⟨p, t, -, ha, rfl⟩)
      · obtain ⟨a, ha, hseq⟩ := honly n hn
        obtain ⟨x, hx, hax⟩ := (hhanded a).mp ha
        exact ⟨x, hx, a, hax, hseq⟩
      · obtain ⟨x, hx, hax⟩ := (hhanded _).mp ha
        exact ⟨x, hx, _, hax, rfl⟩
    · rintro ⟨x, hx, a, hax, rfl⟩
      have ha := (hhanded a).mpr ⟨x, hx, hax⟩
      rcases inv.live_or_deleted (.inl ha) with hdel | ⟨u, hu, hseq⟩
      · exact .inl hdel
      · obtain ⟨p, n⟩ := a
        obtain rfl : u.sequence = n := hseq
        exact .inr ⟨p, u, hu, ha, rfl⟩
  · rw [hlive]
    refine and_congr_right fun ht => ?_
    rw [← hway]
    constructor
    · exact fun hnot => (hfound p t ht).resolve_left hnot
    · exact fun ha => (inv.onItsWay _ ha).1
  · rw [hcreated] at hle
    rcases haccounted n hpos hle with hdel | ⟨p, t, ht, rfl⟩
    · exact .inl ((hdeleted n).mpr (.inl hdel))
    · by_cases hin : (⟨p, t.sequence⟩ : ActiveTimer) ∈ s.timers.handed
      · exact .inl ((hdeleted _).mpr (.inr ⟨p, t, ht, hin, rfl⟩))
      · exact .inr ⟨p, t, (hlive p t).mpr ⟨ht, hin⟩, rfl⟩

/-- One timer has arrived, another is added between the last `swap` and the end of the loop. -/
theorem timers_deleted_or_leaked_late : ∃ w s mem,
    (machine Unit Unit Unit).Run (fresh Unit Unit Unit) w s ∧
    s.timers.queue.destruct = .ok mem ∧ 1 ∈ mem.deleted ∧
    .newTimer (.other ()) 16 ⟨100⟩ .zero ∈ w ∧ 2 ∉ mem.deleted := by
  obtain ⟨s, hrun, hP⟩ := exists_run (s := fresh Unit Unit Unit)
    (w := [.newTimer (.other ()) 8 ⟨100⟩ .zero, .publish (.other ()) ⟨8, 1⟩ ⟨50⟩,
      .wakeup (.other ()), .readSequence (.other ()) ⟨8, 1⟩ ⟨8, 1⟩, .loop .test, .loop (.poll []),
      .loop .doPendingFunctors, .loop .swap, .newTimer (.other ()) 16 ⟨100⟩ .zero,
      .publish (.other ()) ⟨16, 2⟩ ⟨50⟩, .wakeup (.other ()),
      .readSequence (.other ()) ⟨16, 2⟩ ⟨16, 2⟩, .quit (.other ()), .wakeup (.other ()),
      .runFunctor (.addTimerInLoop ⟨8, 1⟩) ⟨50⟩, .loop .finishFunctor, .loop .finishFunctors,
      .loop .test])
    (P := fun s => match s.loop.pc with | .exited => true | _ => false) (by decide)
  have hpc : s.loop.pc = .exited := by
    split at hP
    · assumption
    · cases hP
  obtain ⟨mem, hmem, hdeleted, -⟩ := timers_deleted_or_leaked hrun hpc
  refine ⟨_, s, mem, hrun, hmem, (hdeleted 1).mpr ?_, by simp, fun h => ?_⟩
  · exact ⟨.runFunctor (.addTimerInLoop ⟨8, 1⟩) ⟨50⟩, by simp, ⟨8, 1⟩,
      List.mem_singleton_self _, rfl⟩
  · obtain ⟨x, hx, a, ha, hseq⟩ := (hdeleted 2).mp h
    revert x a
    decide

end Reactor

end Dxian
