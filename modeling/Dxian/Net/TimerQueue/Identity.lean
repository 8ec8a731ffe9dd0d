import Dxian.Net.TimerQueue.Machine

/-!
# Which timer a cancel is for

`cancelInLoop` looks for the address and the sequence number of a `TimerId`. The address
may belong to another Timer by now, the number never does. During a batch the pair is
noted in `cancelingTimers_`, found or not, and `reset` looks the timers of the batch up
there.

## Main results

- `Effect.sameFate` — a cancel leaves every timer with another number alone
- `BatchRun.of_run` — what the callbacks of a batch have cancelled by its end
- `cancel_own_timer` — both, for every id and every batch
-/

namespace Dxian

open Transition

namespace TimerQueue

/-- The queue treats the Timer `u` at `p` in `t` as in `s`. -/
structure SameFate (s t : State) (p : Ptr) (u : Timer) : Prop where
  live : t.queue.mem.timerAt p = some u
  timers : ∀ e, (⟨e, p⟩ : Entry) ∈ t.queue.timers ↔ (⟨e, p⟩ : Entry) ∈ s.queue.timers
  active : (⟨p, u.sequence⟩ : ActiveTimer) ∈ t.queue.activeTimers ↔
    (⟨p, u.sequence⟩ : ActiveTimer) ∈ s.queue.activeTimers
  inBatch : t.InBatch ⟨p, u.sequence⟩ ↔ s.InBatch ⟨p, u.sequence⟩
  canceling : (⟨p, u.sequence⟩ : ActiveTimer) ∈ t.queue.cancelingTimers ↔
    (⟨p, u.sequence⟩ : ActiveTimer) ∈ s.queue.cancelingTimers

/-- **Frame**: a cancel concerns no timer with another number, whatever address it has. -/
theorem Effect.sameFate {s t : State} {id : TimerId} (h : Effect s (.cancelInLoop id) t)
    (inv : Invariant s) {p : Ptr} {u : Timer} (hu : s.queue.mem.timerAt p = some u)
    (hne : u.sequence ≠ id.sequence) : SameFate s t p u := by
  have hphase := h.phase_of_quiet trivial
  have hbatch : t.InBatch ⟨p, u.sequence⟩ ↔ s.InBatch ⟨p, u.sequence⟩ :=
    State.inBatch_congr (by rw [hphase]) (fun it hit => h.timerAt_of_batch inv nofun hit) _
  cases h with
  | @cancelled r v hout hv ha =>
    have hp : p ≠ r := by
      rintro rfl
      cases hu.symm.trans hv
      exact hne rfl
    refine ⟨(Memory.released_timerAt_of_ne hv hp).trans hu, fun e => ?_, ?_, hbatch, Iff.rfl⟩
    · exact OrderedSet.mem_erase.trans (and_iff_right fun heq => hp (congrArg Entry.timer heq))
    · exact OrderedSet.mem_erase.trans
        (and_iff_right fun heq => hp (congrArg ActiveTimer.timer heq))
  | noted hn hcalling =>
    refine ⟨hu, fun e => Iff.rfl, Iff.rfl, hbatch, OrderedSet.mem_insert.trans ?_⟩
    exact or_iff_right fun heq => hne (congrArg ActiveTimer.sequence heq)
  | ignored hn hidle => exact ⟨hu, fun e => Iff.rfl, Iff.rfl, hbatch, Iff.rfl⟩

/-! ## What a batch has cancelled -/

/-- The callbacks of the batch that `s` has due at `now` are being run; the calls since
`handleRead` are `w`. -/
structure BatchRun (s : State) (now : Timestamp) (w : List Action) (t : State) : Prop where
  time : t.phase.time = some now
  batch : t.phase.batch = s.queue.expired now
  live : ∀ it ∈ s.queue.expired now,
    t.queue.mem.timerAt it.timer = s.queue.mem.timerAt it.timer
  canceling : ∀ a ∈ t.queue.cancelingTimers, ∃ id, .cancelInLoop id ∈ w ∧ a = id.toActive
  noted : ∀ id, .cancelInLoop id ∈ w → t.InBatch id.toActive →
    id.toActive ∈ t.queue.cancelingTimers

theorem BatchRun.begin {s t : State} {now : Timestamp} (h : Effect s (.handleRead now) t) :
    BatchRun s now [] t := by
  cases h with
  | handleRead hidle hc hlate hq =>
    refine ⟨rfl, rfl, fun it hit => by rw [hq], fun a ha => ?_, nofun⟩
    exact absurd ha (OrderedSet.notMem_empty a)

/-- What was noted before stays noted until `reset`. -/
theorem Effect.canceling_mono {s t : State} {x : Action} (h : Effect s x t)
    (hcalling : s.phase.isCalling = true) {a : ActiveTimer}
    (ha : a ∈ s.queue.cancelingTimers) (hreset : ∀ clock, x ≠ .reset clock) :
    a ∈ t.queue.cancelingTimers := by
  cases h with
  | newTimer h => exact ha
  | added hout ht hfresh => dsimp only; split <;> exact ha
  | cancelled hout ht hactive => exact ha
  | noted hn hcalling => exact OrderedSet.mem_insert.mpr (.inr ha)
  | ignored hn hidle => exact ha
  | handleRead hidle hc hlate hq =>
    rw [hidle] at hcalling
    cases hcalling
  | run hphase ht => exact ha
  | reset hphase hr => exact absurd rfl (hreset _)

/-- The cancel of a timer of the batch is noted. -/
theorem Effect.noted_of_inBatch {s t : State} {id : TimerId}
    (h : Effect s (.cancelInLoop id) t) (inv : Invariant s) (hin : s.InBatch id.toActive) :
    id.toActive ∈ t.queue.cancelingTimers := by
  obtain ⟨it, hit, u, hu, heq⟩ := hin
  cases h with
  | cancelled hout hv ha =>
    rw [TimerId.toActive] at heq
    exact absurd (heq ▸ ha) (inv.consistent.batch_inactive hit _)
  | noted hn hcalling => exact OrderedSet.mem_insert.mpr (.inl rfl)
  | ignored hn hidle =>
    rw [hidle] at hit
    cases hit

/-- **Step lemma.** -/
theorem BatchRun.step {s t t' : State} {now : Timestamp} {w : List Action} {x : Action}
    (hb : BatchRun s now w t) (inv : Invariant t) (h : Effect t x t')
    (hreset : ∀ clock, x ≠ .reset clock) : BatchRun s now (w ++ [x]) t' := by
  have hcalling : t.phase.isCalling = true := by
    have htime := hb.time
    cases hphase : t.phase with
    | idle => rw [hphase] at htime; cases htime
    | calling => rfl
  have hphase : t'.phase.time = t.phase.time ∧ t'.phase.batch = t.phase.batch := by
    cases h with
    | newTimer | added | cancelled | noted | ignored => exact ⟨rfl, rfl⟩
    | handleRead hidle hc hlate hq => rw [hidle] at hcalling; cases hcalling
    | run hphase ht => exact ⟨by rw [hphase]; rfl, by simp [hphase, Phase.batch]⟩
    | reset hphase hr => exact absurd rfl (hreset _)
  have hlive : ∀ it ∈ t.phase.batch,
      t'.queue.mem.timerAt it.timer = t.queue.mem.timerAt it.timer :=
    fun it hit => h.timerAt_of_batch inv hreset hit
  have hin : ∀ a, t'.InBatch a ↔ t.InBatch a := State.inBatch_congr hphase.2 hlive
  refine ⟨hphase.1.trans hb.time, hphase.2.trans hb.batch, fun it hit => ?_, fun a ha => ?_,
    fun id hid hbatch => ?_⟩
  · exact (hlive it (hb.batch ▸ hit)).trans (hb.live it hit)
  · have hne : t'.phase ≠ .idle := by
      intro hidle
      have htime := hphase.1.trans hb.time
      rw [hidle] at htime
      cases htime
    rcases h.mem_canceling hne ha with ⟨-, hold⟩ | ⟨id, rfl, rfl⟩
    · obtain ⟨id, hid, rfl⟩ := hb.canceling a hold
      exact ⟨id, List.mem_append_left _ hid, rfl⟩
    · exact ⟨id, List.mem_append_right _ (List.mem_singleton_self _), rfl⟩
  · have hbatch' := (hin _).mp hbatch
    rcases List.mem_append.mp hid with hid | hid
    · exact h.canceling_mono hcalling (hb.noted id hid hbatch') hreset
    · obtain rfl := List.mem_singleton.mp hid
      exact h.noted_of_inBatch inv hbatch'

/-- **Run lemma.** -/
theorem BatchRun.of_run {s t u : State} {now : Timestamp} {w : List Action}
    (hs : machine.Reachable s) (hbegin : machine.step s (.handleRead now) (.ok t))
    (h : machine.Run t w u) (hw : ∀ clock, .reset clock ∉ w) : BatchRun s now w u := by
  have ht := hs.step hbegin
  induction h with
  | nil => exact .begin (reachable_effect hs hbegin)
  | @snoc w u u' x hrun hstep ih =>
    have hprev := ih fun clock hmem => hw clock (List.mem_append_left _ hmem)
    refine hprev.step (reachable_invariant (ht.run hrun))
      (reachable_effect (ht.run hrun) hstep) ?_
    rintro clock rfl
    exact hw clock (List.mem_append_right _ (List.mem_singleton_self _))

/-! ## The fate of the timers of a batch -/

/-- `reset` inserts a repeating timer of the batch again, or deletes it if it was cancelled. -/
theorem BatchRun.reset {s t t' : State} {now clock : Timestamp} {w : List Action}
    (hb : BatchRun s now w t) (inv : Invariant t) (h : Effect t (.reset clock) t') {p : Ptr}
    {u : Timer} (hu : s.queue.mem.timerAt p = some u)
    (hdue : (⟨u.expiration, p⟩ : Entry) ∈ s.queue.expired now) (hrepeats : u.repeats = true) :
    (.cancelInLoop ⟨p, u.sequence⟩ ∉ w →
      t'.queue.mem.timerAt p = some { u with expiration := addTime now u.interval } ∧
      (⟨addTime now u.interval, p⟩ : Entry) ∈ t'.queue.timers ∧
      (⟨p, u.sequence⟩ : ActiveTimer) ∈ t'.queue.activeTimers) ∧
    (.cancelInLoop ⟨p, u.sequence⟩ ∈ w → t'.Deleted ⟨p, u.sequence⟩ ∧
      (∀ e, (⟨e, p⟩ : Entry) ∉ t'.queue.timers) ∧
      (⟨p, u.sequence⟩ : ActiveTimer) ∉ t'.queue.activeTimers) := by
  have hlive : t.queue.mem.timerAt p = some u := (hb.live _ hdue).trans hu
  have hin : t.InBatch ⟨p, u.sequence⟩ := ⟨_, hb.batch ▸ hdue, u, hlive, rfl⟩
  have htime := hb.time
  have hbatch := hb.batch
  cases h with
  | @reset now' done clock q' hphase hr =>
    rw [hphase] at htime hbatch
    obtain rfl : now' = now := Option.some.inj htime
    have hdone : (⟨u.expiration, p⟩ : Entry) ∈ done := by
      have hmem : (⟨u.expiration, p⟩ : Entry) ∈ (Phase.calling now' done []).batch :=
        hbatch ▸ hdue
      rwa [Phase.batch, List.append_nil] at hmem
    have c : ({ t.queue with callingExpiredTimers := false } : TimerQueue).Consistent done := by
      have hconsistent := inv.consistent
      rw [hphase, Phase.batch, List.append_nil] at hconsistent
      exact hconsistent.congr rfl rfl rfl
    constructor
    · intro hnot
      have hkept : ({ t.queue with callingExpiredTimers := false } : TimerQueue).Kept
          ⟨u.expiration, p⟩ u := by
        refine ⟨hrepeats, fun hmem => hnot ?_⟩
        obtain ⟨id, hid, heq⟩ := hb.canceling _ hmem
        obtain ⟨htimer, hseq⟩ := ActiveTimer.ext_iff.mp heq
        rwa [show id = ⟨p, u.sequence⟩ from (by
          cases id
          exact congrArg₂ TimerId.mk htimer.symm hseq.symm)] at hid
      obtain ⟨hmem, hactive⟩ := hr.kept _ hdone u hlive hkept
      have htimers : (⟨addTime now' u.interval, p⟩ : Entry) ∈ q'.timers :=
        (hr.mem_timers c).mpr (.inr ⟨_, hdone, u, hlive, hkept, rfl⟩)
      have hrestart : u.restart now' = { u with expiration := addTime now' u.interval } :=
        if_pos hrepeats
      rw [hrestart] at hmem
      dsimp only
      split <;> exact ⟨hmem, htimers, hactive⟩
    · intro hcancelled
      have hdropped : ¬ ({ t.queue with callingExpiredTimers := false } : TimerQueue).Kept
          ⟨u.expiration, p⟩ u := fun hkept => hkept.2 (hb.noted _ hcancelled hin)
      have hdead := hr.dropped _ hdone u hlive hdropped
      have hdeleted : u.sequence ∈ q'.mem.deleted :=
        (hr.deleted _).mpr (.inr ⟨_, hdone, u, hlive, hdropped, rfl⟩)
      have htimers : ∀ e, (⟨e, p⟩ : Entry) ∉ q'.timers := by
        intro e he
        obtain ⟨v, hv, -⟩ := (hr.consistent.timers_iff e p).mp he
        cases hdead.symm.trans hv
      have hactive : (⟨p, u.sequence⟩ : ActiveTimer) ∉ q'.activeTimers := by
        intro ha
        obtain ⟨v, hv, -⟩ := hr.consistent.active_live p _ ha
        cases hdead.symm.trans hv
      rw [State.Deleted]
      dsimp only
      split <;> exact ⟨hdeleted, htimers, hactive⟩

/-- **An id cancels its own timer only.** A cancel with any id, inside a batch or outside,
does not fault and leaves every timer with another number alone, also one at the address of
the id. Of a batch with any callbacks, a repeating timer is inserted again if and only if
it was not cancelled meanwhile by its own id. -/
theorem cancel_own_timer {s : State} (hs : machine.Reachable s) :
    (∀ id r, machine.step s (.cancelInLoop id) r → ∃ t, r = .ok t ∧ t.phase = s.phase ∧
      ∀ p u, s.queue.mem.timerAt p = some u → u.sequence ≠ id.sequence → SameFate s t p u) ∧
    ∀ now w clock t, machine.Run s (.handleRead now :: w ++ [.reset clock]) t →
      (∀ clock, .reset clock ∉ w) → ∀ p u, s.queue.mem.timerAt p = some u →
      (⟨p, u.sequence⟩ : ActiveTimer) ∈ s.queue.activeTimers → u.expiration ≤ now →
      u.repeats = true →
        (.cancelInLoop ⟨p, u.sequence⟩ ∉ w →
          t.queue.mem.timerAt p = some { u with expiration := addTime now u.interval } ∧
          (⟨addTime now u.interval, p⟩ : Entry) ∈ t.queue.timers ∧
          (⟨p, u.sequence⟩ : ActiveTimer) ∈ t.queue.activeTimers) ∧
        (.cancelInLoop ⟨p, u.sequence⟩ ∈ w → t.Deleted ⟨p, u.sequence⟩ ∧
          (∀ e, (⟨e, p⟩ : Entry) ∉ t.queue.timers) ∧
          (⟨p, u.sequence⟩ : ActiveTimer) ∉ t.queue.activeTimers) := by
  have inv := reachable_invariant hs
  constructor
  · intro id r hstep
    obtain ⟨t, rfl, heff⟩ := Step.effect inv hstep
    exact ⟨t, rfl, heff.phase_of_quiet trivial, fun p u hu hne => heff.sameFate inv hu hne⟩
  · intro now w clock t hrun hw p u hu hactive hdue hrepeats
    obtain ⟨t₁, hrun', hreset⟩ := hrun.last
    obtain ⟨t₀, hbegin, hbody⟩ := hrun'.head
    have hb := BatchRun.of_run hs hbegin hbody hw
    have ht₁ := (hs.step hbegin).run hbody
    exact hb.reset (reachable_invariant ht₁) (reachable_effect ht₁ hreset) hu
      (mem_expired.mpr ⟨inv.consistent.queued hu hactive, hdue⟩) hrepeats

/-- The address of a timer that has fired is given to a repeating one; the callback of that
one cancels with the old id. -/
theorem cancel_own_timer_reused_address : ∃ s t t',
    machine.Run ⟨empty .empty, .idle, []⟩
      [.newTimer 8 ⟨100⟩ .zero, .addTimerInLoop ⟨8, 1⟩ ⟨50⟩, .handleRead ⟨100⟩, .run ⟨8, 1⟩,
        .reset ⟨101⟩, .newTimer 8 ⟨200⟩ ⟨true, 5, by decide⟩, .addTimerInLoop ⟨8, 2⟩ ⟨150⟩] s ∧
    machine.step s (.cancelInLoop ⟨8, 1⟩) (.ok t') ∧
    (⟨8, 2⟩ : ActiveTimer) ∈ t'.queue.activeTimers ∧
    machine.Run s (.handleRead ⟨200⟩ :: [.run ⟨8, 2⟩, .cancelInLoop ⟨8, 1⟩] ++ [.reset ⟨201⟩]) t ∧
    (⟨⟨205⟩, 8⟩ : Entry) ∈ t.queue.timers ∧ (⟨8, 2⟩ : ActiveTimer) ∈ t.queue.activeTimers := by
  obtain ⟨s, hrun, hP⟩ := exists_run (s := ⟨empty .empty, .idle, []⟩)
    (w := [.newTimer 8 ⟨100⟩ .zero, .addTimerInLoop ⟨8, 1⟩ ⟨50⟩, .handleRead ⟨100⟩, .run ⟨8, 1⟩,
      .reset ⟨101⟩, .newTimer 8 ⟨200⟩ ⟨true, 5, by decide⟩, .addTimerInLoop ⟨8, 2⟩ ⟨150⟩])
    (P := fun s => (s.queue.mem.timerAt 8).any (fun u => u.expiration = ⟨200⟩ ∧ u.sequence = 2 ∧
        u.interval.positive ∧ u.interval.microSeconds = 5) ∧
      (⟨8, 2⟩ : ActiveTimer) ∈ s.queue.activeTimers ∧ (next s (.cancelInLoop ⟨8, 1⟩)).isSome ∧
      ([Action.handleRead ⟨200⟩, .run ⟨8, 2⟩, .cancelInLoop ⟨8, 1⟩, .reset ⟨201⟩].foldlM
        next s).isSome)
    (by decide)
  simp only [decide_eq_true_eq] at hP
  obtain ⟨hlive, hactive, hcancel, hbatch⟩ := hP
  obtain ⟨⟨_, interval, _⟩, hu, hfields⟩ := (Option.any_eq_true ..).mp hlive
  obtain ⟨rfl, rfl, hrepeats, hinterval⟩ := of_decide_eq_true hfields
  obtain ⟨t', ht'⟩ := Option.isSome_iff_exists.mp hcancel
  obtain ⟨t, ht⟩ := Option.isSome_iff_exists.mp hbatch
  have hinit : machine.Reachable ⟨empty .empty, .idle, []⟩ := .of_init ⟨_, rfl⟩
  have hs := hinit.run hrun
  have hstep := step_of_next ht'
  have hrun' : machine.Run s
      (.handleRead ⟨200⟩ :: [.run ⟨8, 2⟩, .cancelInLoop ⟨8, 1⟩] ++ [.reset ⟨201⟩]) t :=
    .of_foldlM step_of_next ht
  obtain ⟨hframe, hfate⟩ := cancel_own_timer hs
  obtain ⟨t₂, heq, -, hother⟩ := hframe _ _ hstep
  cases heq
  obtain ⟨-, htimers, hagain⟩ := (hfate _ _ _ _ hrun' (by simp) 8 _ hu hactive
    le_rfl hrepeats).1 (by simp)
  rw [addTime, hinterval] at htimers
  exact ⟨s, t, t', hrun, hstep, (hother 8 _ hu (by show (2 : ℤ) ≠ 1; decide)).active.mpr hactive,
    hrun', htimers, hagain⟩

end TimerQueue

end Dxian
