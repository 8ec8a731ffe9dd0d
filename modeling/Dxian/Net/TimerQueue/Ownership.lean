import Dxian.Net.TimerQueue.Machine

/-!
# Ownership of the timers

`addTimerInLoop` hands a Timer over to the queue. From then on the queue holds
it in one of three places, and every raw pointer in the queue is the pointer of
such a Timer.

## Main results

- `mem_handed_iff` — the Timers handed over are those of the `addTimerInLoop` labels
- `Invariant.existsUnique_place` — each of them is in exactly one place
- `representation_and_ownership` — the two sets, the places and the heap in every run
-/

namespace Dxian

open Transition

namespace TimerQueue

/-- Where a Timer can be that the queue has been given. -/
inductive Place
  | queued
  | inBatch
  | deleted
deriving DecidableEq

/-- `a` is in the place `l`. -/
def State.At (s : State) (a : ActiveTimer) : Place → Prop
  | .queued => s.Queued a
  | .inBatch => s.InBatch a
  | .deleted => s.Deleted a

/-- A batch holds no active timer. -/
theorem Invariant.not_queued_of_inBatch {s : State} (inv : Invariant s) {a : ActiveTimer}
    (h : s.InBatch a) : ¬ s.Queued a := by
  obtain ⟨it, hit, t, ht, rfl⟩ := h
  intro hq
  exact inv.consistent.batch_inactive hit _ hq.1

/-- A Timer that is still held is live, hence has not been deleted. -/
theorem Invariant.not_deleted_of_held {s : State} (inv : Invariant s) {a : ActiveTimer}
    (h : s.Queued a ∨ s.InBatch a) : ¬ s.Deleted a := by
  have hlive : ∃ p t, s.queue.mem.timerAt p = some t ∧ t.sequence = a.sequence := by
    rcases h with hq | ⟨it, -, t, ht, rfl⟩
    · obtain ⟨t, ht, hseq⟩ := inv.consistent.active_live a.timer a.sequence hq.1
      exact ⟨_, t, ht, hseq⟩
    · exact ⟨_, t, ht, rfl⟩
  obtain ⟨p, t, ht, hseq⟩ := hlive
  intro hdel
  exact s.queue.mem.deleted_dead ht (hseq ▸ hdel)

theorem Invariant.place_unique {s : State} (inv : Invariant s) {a : ActiveTimer} {l l' : Place}
    (h : s.At a l) (h' : s.At a l') : l = l' := by
  cases l with
  | queued =>
    cases l' with
    | queued => rfl
    | inBatch => exact absurd h (inv.not_queued_of_inBatch h')
    | deleted => exact absurd h' (inv.not_deleted_of_held (.inl h))
  | inBatch =>
    cases l' with
    | queued => exact absurd h' (inv.not_queued_of_inBatch h)
    | inBatch => rfl
    | deleted => exact absurd h' (inv.not_deleted_of_held (.inr h))
  | deleted =>
    cases l' with
    | queued => exact absurd h (inv.not_deleted_of_held (.inl h'))
    | inBatch => exact absurd h (inv.not_deleted_of_held (.inr h'))
    | deleted => rfl

/-- A Timer that was handed over is in exactly one place. -/
theorem Invariant.existsUnique_place {s : State} (inv : Invariant s) {a : ActiveTimer}
    (h : a ∈ s.handed) : ∃! l, s.At a l := by
  have hplace : ∃ l, s.At a l := by
    rcases inv.placed a h with hq | hb | hd
    · exact ⟨.queued, hq⟩
    · exact ⟨.inBatch, hb⟩
    · exact ⟨.deleted, hd⟩
  obtain ⟨l, hl⟩ := hplace
  exact ⟨l, hl, fun l' hl' => inv.place_unique hl' hl⟩

/-- `addTimerInLoop` hands its Timer over, nothing else does. -/
theorem Action.mem_handedOver {x : Action} {a : ActiveTimer} :
    a ∈ x.handedOver ↔ ∃ clock, x = .addTimerInLoop a clock := by
  cases x with
  | addTimerInLoop b clock => simp [handedOver, eq_comm]
  | _ => simp [handedOver]

theorem mem_handed_iff {s t : State} {w : List Action} (hs : machine.Reachable s)
    (h : machine.Run s w t) {a : ActiveTimer} :
    a ∈ t.handed ↔ a ∈ s.handed ∨ ∃ clock, .addTimerInLoop a clock ∈ w := by
  induction h with
  | nil => simp
  | snoc hrun hstep ih =>
    rw [(reachable_effect (hs.run hrun) hstep).handed_eq, List.mem_append, ih,
      Action.mem_handedOver, or_comm, or_assoc]
    refine or_congr_right ?_
    simp only [List.mem_append, List.mem_singleton, exists_or, eq_comm]

/-- The pointers the queue holds: in `timers_`, in `activeTimers_`, in a batch. -/
def State.Holds (s : State) (p : Ptr) : Prop :=
  (∃ e, (⟨e, p⟩ : Entry) ∈ s.queue.timers) ∨ (∃ n, (⟨p, n⟩ : ActiveTimer) ∈ s.queue.activeTimers) ∨
    ∃ it ∈ s.phase.batch, it.timer = p

/-- No pointer of the queue dangles: each leads to a Timer that was handed over
and has not been deleted since. -/
theorem Invariant.live_of_holds {s : State} (inv : Invariant s) {p : Ptr} (h : s.Holds p) :
    ∃ t, s.queue.mem.timerAt p = some t ∧ ⟨p, t.sequence⟩ ∈ s.handed ∧
      ¬ s.Deleted ⟨p, t.sequence⟩ := by
  have c := inv.consistent
  have hlive : ∃ t, s.queue.mem.timerAt p = some t ∧ ⟨p, t.sequence⟩ ∈ s.handed := by
    rcases h with ⟨e, he⟩ | ⟨n, hn⟩ | ⟨it, hit, rfl⟩
    · obtain ⟨t, ht, -, ha⟩ := (c.timers_iff e p).mp he
      exact ⟨t, ht, inv.queued_handed _ ha⟩
    · obtain ⟨t, ht, rfl⟩ := c.active_live p n hn
      exact ⟨t, ht, inv.queued_handed _ hn⟩
    · obtain ⟨t, ht, -, -⟩ := c.batch_live it hit
      exact ⟨t, ht, inv.batch_handed _ ⟨it, hit, t, ht, rfl⟩⟩
  obtain ⟨t, ht, hh⟩ := hlive
  exact ⟨t, ht, hh, s.queue.mem.deleted_dead ht⟩

/-- **Representation and ownership.** In every run of a queue that starts empty,
the two sets list the same live timers under their current expirations; a Timer
that was handed over is in both sets, in the batch, or deleted, and in one of
these only; every pointer the queue holds leads to such a Timer; no Timer is
deleted twice; and no step fails an assert or touches a deleted Timer. -/
theorem representation_and_ownership {mem : Memory} {w : List Action} {s : State}
    (h : machine.Run ⟨empty mem, .idle, []⟩ w s) :
    (∀ e p, (⟨e, p⟩ : Entry) ∈ s.queue.timers ↔ ∃ t, s.queue.mem.timerAt p = some t ∧
      t.expiration = e ∧ (⟨p, t.sequence⟩ : ActiveTimer) ∈ s.queue.activeTimers) ∧
    (∀ p n, (⟨p, n⟩ : ActiveTimer) ∈ s.queue.activeTimers →
      ∃ t, s.queue.mem.timerAt p = some t ∧ t.sequence = n) ∧
    s.queue.timers.size = s.queue.activeTimers.size ∧
    (∀ a clock, .addTimerInLoop a clock ∈ w → ∃! l, s.At a l) ∧
    (∀ p, s.Holds p → ∃ t clock, s.queue.mem.timerAt p = some t ∧
      .addTimerInLoop ⟨p, t.sequence⟩ clock ∈ w ∧ ¬ s.Deleted ⟨p, t.sequence⟩) ∧
    s.queue.mem.deleted.Nodup ∧
    ∀ a e, ¬ machine.step s a (.error e) := by
  have hinit : machine.Reachable ⟨empty mem, .idle, []⟩ := .of_init ⟨mem, rfl⟩
  have inv := reachable_invariant (hinit.run h)
  have hhanded : ∀ {a}, a ∈ s.handed ↔ ∃ clock, .addTimerInLoop a clock ∈ w := by
    intro a
    simpa using mem_handed_iff hinit h (a := a)
  refine ⟨inv.consistent.timers_iff, inv.consistent.active_live, inv.consistent.sizes,
    fun a clock ha => inv.existsUnique_place (hhanded.mpr ⟨clock, ha⟩), fun p hp => ?_,
    s.queue.mem.deleted_nodup, fun a e => machine_safe s a e (hinit.run h)⟩
  obtain ⟨t, ht, hh, hd⟩ := inv.live_of_holds hp
  obtain ⟨clock, hw⟩ := hhanded.mp hh
  exact ⟨t, clock, ht, hw, hd⟩

/-- A one-shot timer fires, cancels itself from its callback and is deleted once. -/
theorem representation_and_ownership_self_cancel : ∃ s,
    machine.Run ⟨empty .empty, .idle, []⟩
      [.newTimer 8 ⟨100⟩ .zero, .addTimerInLoop ⟨8, 1⟩ ⟨50⟩, .handleRead ⟨100⟩, .run ⟨8, 1⟩,
        .cancelInLoop ⟨8, 1⟩, .reset ⟨101⟩] s ∧
    s.queue.mem.deleted = [1] ∧ s.queue.timers.size = s.queue.activeTimers.size ∧
    ∃! l, s.At ⟨8, 1⟩ l := by
  obtain ⟨s, hrun, hs⟩ := exists_run (s := ⟨empty .empty, .idle, []⟩)
    (w := [.newTimer 8 ⟨100⟩ .zero, .addTimerInLoop ⟨8, 1⟩ ⟨50⟩, .handleRead ⟨100⟩, .run ⟨8, 1⟩,
      .cancelInLoop ⟨8, 1⟩, .reset ⟨101⟩])
    (P := fun s => s.queue.mem.deleted = [1]) (by decide)
  have hall := representation_and_ownership hrun
  exact ⟨s, hrun, by simpa using hs, hall.2.2.1, hall.2.2.2.1 _ ⟨50⟩ (by simp)⟩

end TimerQueue

end Dxian
