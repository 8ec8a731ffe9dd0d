import Dxian.Net.TimerQueue.Machine

/-!
# Cancelling timers

`cancelInLoop` deletes a queued timer. A timer of the current batch is in
neither set; it is then noted in `cancelingTimers_`, which `reset` looks at but
the loop over the callbacks does not. So a cancelled timer whose callback is
still to be started in this batch is started all the same.

## Main results

- `Effect.doomed`, `Effect.not_pending` — what a cancel achieves is not undone
- `cancel_stops_iff` — a cancel stops the timer unless its callback is pending
- `cancelled_timer_runs` — a run in which a cancelled timer is started
-/

namespace Dxian

open Transition

namespace TimerQueue

namespace State

variable (s : State)

/-- The callback of `a` is still to be started in the current batch. -/
def Pending (a : ActiveTimer) : Prop :=
  ∃ it ∈ s.phase.pending, ∃ t, s.queue.mem.timerAt it.timer = some t ∧
    (⟨it.timer, t.sequence⟩ : ActiveTimer) = a

/-- `a` is deleted, or `reset` is going to delete it. -/
def Doomed (a : ActiveTimer) : Prop :=
  s.Deleted a ∨ s.InBatch a ∧ a ∈ s.queue.cancelingTimers

end State

/-- A Timer that is doomed is in neither set. -/
theorem State.Doomed.not_active {s : State} (inv : Invariant s) {a : ActiveTimer}
    (h : s.Doomed a) : a ∉ s.queue.activeTimers := by
  intro ha
  rcases h with hdel | ⟨⟨it, hit, t, ht, rfl⟩, -⟩
  · obtain ⟨t, ht, hseq⟩ := inv.consistent.active_live a.timer a.sequence ha
    exact s.queue.mem.deleted_dead ht (hseq ▸ hdel)
  · exact inv.consistent.batch_inactive hit _ ha

section Step

variable {s t : State} {x : Action} {a : ActiveTimer}

/-- **Step lemma**: no step saves a doomed timer. -/
theorem Effect.doomed (h : Effect s x t) (inv : Invariant s) (hs : s.Doomed a) : t.Doomed a := by
  rcases hs with hdel | ⟨hin, hc⟩
  · exact .inl (h.deleted_mono hdel)
  · obtain ⟨it, hit, u, hu, hua⟩ := hin
    -- short of `reset`, the timer stays in the batch and in `cancelingTimers_`
    have hkeep : (∀ clock, x ≠ .reset clock) → it ∈ t.phase.batch →
        (∀ b ∈ s.queue.cancelingTimers, b ∈ t.queue.cancelingTimers) → t.Doomed a :=
      fun hx hit' hsub => .inr ⟨⟨it, hit', u, (h.timerAt_of_batch inv hx hit).trans hu, hua⟩,
        hsub a hc⟩
    cases h with
    | newTimer h => exact hkeep (by simp) hit fun _ => id
    | added hout ht hfresh =>
      refine hkeep (by simp) hit fun b hb => ?_
      dsimp only
      split <;> exact hb
    | cancelled hout ht ha => exact hkeep (by simp) hit fun _ => id
    | noted hn hcalling =>
      exact hkeep (by simp) hit fun b hb => OrderedSet.mem_insert.mpr (.inr hb)
    | ignored hn hidle => simp [hidle, Phase.batch] at hit
    | handleRead hidle hc hlate hq => simp [hidle, Phase.batch] at hit
    | @run now done jt rest v hphase hv =>
      refine hkeep (by simp) ?_ fun _ => id
      rw [hphase] at hit
      simpa [Phase.batch] using hit
    | @reset now done clock q' hphase hr =>
      have hdone : it ∈ done := by simpa [hphase, Phase.batch] using hit
      have hdel : a.sequence ∈ q'.mem.deleted := by
        refine (hr.deleted _).mpr (.inr ⟨it, hdone, u, hu, fun hk => hk.2 ?_, ?_⟩)
        · exact hua.symm ▸ hc
        · rw [← hua]
      refine .inl ?_
      rw [State.Deleted]
      dsimp only
      split <;> exact hdel

/-- The cancel of a timer that has been handed over dooms it. -/
theorem Effect.doomed_of_cancel {id : TimerId} (h : Effect s (.cancelInLoop id) t)
    (inv : Invariant s) (hh : id.toActive ∈ s.handed) : t.Doomed id.toActive := by
  have hplace := inv.placed _ hh
  cases h with
  | cancelled hout ht ha => exact .inl (List.mem_cons_self ..)
  | noted hn hcalling =>
    rcases hplace with hq | hin | hdel
    · exact absurd hq.1 hn
    · exact .inr ⟨hin, OrderedSet.mem_insert.mpr (.inl rfl)⟩
    · exact .inl hdel
  | ignored hn hidle =>
    rcases hplace with hq | ⟨it, hit, -⟩ | hdel
    · exact absurd hq.1 hn
    · simp [hidle, Phase.batch] at hit
    · exact .inl hdel

/-- Quiet calls leave the pending callbacks as they are. -/
theorem Effect.pending_iff_of_quiet (h : Effect s x t) (inv : Invariant s) (hx : x.Quiet) :
    t.Pending a ↔ s.Pending a := by
  have hreset : ∀ clock, x ≠ .reset clock := by
    rintro clock rfl
    exact hx
  unfold State.Pending
  rw [h.phase_of_quiet hx]
  refine exists_congr fun it => and_congr_right fun hit => ?_
  have hbatch : it ∈ s.phase.batch := by
    rw [Phase.batch_eq]; exact List.mem_append_right _ hit
  rw [h.timerAt_of_batch inv hreset hbatch]

/-- **Step lemma**: a doomed timer that is not pending is not started, and does
not become pending. -/
theorem Effect.not_pending (h : Effect s x t) (inv : Invariant s) (hd : s.Doomed a)
    (hp : ¬ s.Pending a) : ¬ t.Pending a ∧ ∀ b, x = .run b → b.sequence ≠ a.sequence := by
  cases x with
  | newTimer | addTimerInLoop | cancelInLoop =>
    exact ⟨fun hp' => hp ((h.pending_iff_of_quiet inv trivial).mp hp'), by simp⟩
  | handleRead now =>
    refine ⟨fun hp' => ?_, by simp⟩
    -- what `getExpired` takes out is alive, and outside a batch the doomed are deleted
    have hdel : s.Deleted a := by
      rcases hd with hdel | ⟨⟨it, hit, -⟩, -⟩
      · exact hdel
      · cases h with | handleRead hidle => simp [hidle, Phase.batch] at hit
    obtain ⟨it, -, u, hu, rfl⟩ := hp'
    exact t.queue.mem.deleted_dead hu (h.deleted_mono hdel)
  | run b =>
    obtain ⟨now, done, it, rest, u, hphase, hu, rfl, rfl⟩ := h.of_run
    constructor
    · intro hp'
      obtain ⟨jt, hjt, v, hv, hva⟩ := hp'
      exact hp ⟨jt, by rw [hphase]; exact List.mem_cons_of_mem _ hjt, v, hv, hva⟩
    · rintro _ ⟨⟩ heq
      replace heq : u.sequence = a.sequence := heq
      rcases hd with hdel | ⟨⟨jt, -, v, hv, hva⟩, -⟩
      · exact s.queue.mem.deleted_dead hu (heq ▸ hdel)
      · have hseq : v.sequence = a.sequence := congrArg ActiveTimer.sequence hva
        have htimer : it.timer = jt.timer := s.queue.mem.distinct hu hv (heq.trans hseq.symm)
        refine hp ⟨it, by rw [hphase]; exact List.mem_cons_self .., u, hu, ?_⟩
        rw [← hva, heq, ← hseq, htimer]
  | reset clock =>
    refine ⟨fun hp' => ?_, by simp⟩
    obtain ⟨it, hit, -⟩ := hp'
    cases h with | reset hphase hr => cases hit

end Step

/-- **Cancelling.** Let `cancelInLoop` return for a timer that was added before.
The callback is never started again, in this batch or later, if and only if it
was not still to be started in the current batch when the cancel was made. -/
theorem cancel_stops_iff {s t : State} {id : TimerId} (hs : machine.Reachable s)
    (hh : id.toActive ∈ s.handed) (hstep : machine.step s (.cancelInLoop id) (.ok t)) :
    (∀ w u, machine.Run t w u → ∀ b, .run b ∈ w → b.sequence ≠ id.sequence) ↔
      ¬ s.Pending id.toActive := by
  have inv := reachable_invariant hs
  have heff := reachable_effect hs hstep
  constructor
  · intro hnever hp
    obtain ⟨it, hit, v, hv, hva⟩ := (heff.pending_iff_of_quiet inv trivial).mpr hp
    cases hphase : t.phase with
    | idle => simp [hphase, Phase.pending] at hit
    | calling now done rest =>
      rw [hphase] at hit
      obtain ⟨before, after, rfl⟩ := List.mem_iff_append.mp hit
      obtain ⟨w, hw, -⟩ := exists_run_through before done t (heff.invariant inv) hphase
      exact hnever _ _ (hw.snoc (step_run rfl hv)) _
        (List.mem_append_right _ (List.mem_singleton_self _)) (congrArg ActiveTimer.sequence hva)
  · intro hp w u hrun b hb
    have hstart : t.Doomed id.toActive ∧ ¬ t.Pending id.toActive :=
      ⟨heff.doomed_of_cancel inv hh, mt (heff.pending_iff_of_quiet inv trivial).mp hp⟩
    have hsafe := (run_emits (P := fun _ => True)
      (I := fun s => s.Doomed id.toActive ∧ ¬ s.Pending id.toActive)
      (fun inv _ hI heff => ⟨⟨heff.doomed inv hI.1, (heff.not_pending inv hI.1 hI.2).1⟩,
        (heff.not_pending inv hI.1 hI.2).2⟩) (hs.step hstep) hrun (by simp) hstart).2
    exact hsafe _ hb b rfl

/-- A timer that is cancelled from outside `handleRead` is never started. -/
theorem cancel_stops_iff_queued : ∃ s t,
    machine.Run ⟨empty .empty, .idle, []⟩
      [.newTimer 8 ⟨100⟩ .zero, .addTimerInLoop ⟨8, 1⟩ ⟨50⟩] s ∧
    machine.step s (.cancelInLoop ⟨8, 1⟩) (.ok t) ∧
    ∀ w u, machine.Run t w u → ∀ b, .run b ∈ w → b.sequence ≠ 1 := by
  obtain ⟨s, hrun, hP⟩ := exists_run (s := ⟨empty .empty, .idle, []⟩)
    (w := [.newTimer 8 ⟨100⟩ .zero, .addTimerInLoop ⟨8, 1⟩ ⟨50⟩])
    (P := fun s => !s.phase.isCalling && (⟨8, 1⟩ : ActiveTimer) ∈ s.handed &&
      (next s (.cancelInLoop ⟨8, 1⟩)).isSome) (by decide)
  simp only [Bool.and_eq_true, Bool.not_eq_true', decide_eq_true_eq] at hP
  obtain ⟨⟨hidle, hhanded⟩, hnext⟩ := hP
  obtain ⟨t, ht⟩ := Option.isSome_iff_exists.mp hnext
  have hinit : machine.Reachable ⟨empty .empty, .idle, []⟩ := .of_init ⟨_, rfl⟩
  have hs := hinit.run hrun
  refine ⟨s, t, hrun, step_of_next ht, ?_⟩
  refine (@cancel_stops_iff s t ⟨8, 1⟩ hs hhanded (step_of_next ht)).mpr ?_
  simp [State.Pending, Phase.eq_idle hidle, Phase.pending]

/-- A cancelled timer may still be started: the first callback of a batch cancels
the second timer, which is started next. -/
theorem cancelled_timer_runs : ¬ ∀ (mem : Memory) (v w : List Action) (id : TimerId)
    (clock : Timestamp) (s : State),
    machine.Run ⟨empty mem, .idle, []⟩ (v ++ .cancelInLoop id :: w) s →
    .addTimerInLoop id.toActive clock ∈ v → .run id.toActive ∉ w := by
  intro hclaim
  obtain ⟨s, hrun, -⟩ := exists_run (s := ⟨empty .empty, .idle, []⟩)
    (w := [.newTimer 8 ⟨100⟩ .zero, .newTimer 16 ⟨100⟩ .zero, .addTimerInLoop ⟨8, 1⟩ ⟨50⟩,
      .addTimerInLoop ⟨16, 2⟩ ⟨50⟩, .handleRead ⟨100⟩, .run ⟨8, 1⟩] ++
      .cancelInLoop ⟨16, 2⟩ :: [.run ⟨16, 2⟩])
    (P := fun _ => true) (by decide)
  exact hclaim _ _ _ _ ⟨50⟩ _ hrun (by simp [TimerId.toActive]) (by simp [TimerId.toActive])

end TimerQueue

end Dxian
