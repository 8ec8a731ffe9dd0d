import Dxian.Net.TimerQueue.Machine

/-!
# The timerfd is armed

The timerfd is programmed in two places only: when `addTimerInLoop` sees a new
earliest timer, and at the end of `reset`. Between the read in `handleRead` and
that `reset` it may be disarmed while timers are queued; all of these are then
later than the time of the batch.

## Main results

- `Effect.covered` — what one step preserves
- `no_lost_alarm` — outside `handleRead` the timerfd is armed early enough
-/

namespace Dxian

open Transition

namespace TimerQueue

/-- The timerfd is armed for a time that is not later than any queued timer. -/
def Armed (q : TimerQueue) : Prop :=
  ∃ alarm, q.alarm = some alarm ∧ ∀ e ∈ q.timers, alarm.expiration ≤ e.expiration

/-- During a batch: later than the time of the batch. -/
def Phase.Late : Phase → Timestamp → Prop
  | .idle, _ => False
  | .calling now _ _, x => now < x

theorem Phase.Late.trans_le {φ : Phase} {x y : Timestamp} (h : φ.Late x) (hxy : x ≤ y) :
    φ.Late y := by
  cases φ with
  | idle => exact h
  | calling now done rest => exact lt_of_lt_of_le h hxy

/-- The invariant of the alarm. -/
structure Covered (s : State) : Prop where
  armed : s.queue.Armed ∨ ∀ e ∈ s.queue.timers, s.phase.Late e.expiration
  clock : ∀ now done rest, s.phase = .calling now done rest → Timestamp.invalid < now
  delay : ∀ alarm, s.queue.alarm = some alarm →
    100 * 1000 ≤ alarm.value.tvSec * 1000000000 + alarm.value.tvNsec

theorem Armed.anti {q q' : TimerQueue} (h : q.Armed) (halarm : q'.alarm = q.alarm)
    (hsub : ∀ e ∈ q'.timers, e ∈ q.timers) : q'.Armed := by
  obtain ⟨alarm, ha, hle⟩ := h
  exact ⟨alarm, halarm.trans ha, fun e he => hle e (hsub e he)⟩

/-- A timer that is not the new earliest one comes after a queued timer. -/
theorem exists_le_of_not_earliestChanged {q : TimerQueue} {t : Timer}
    (h : q.earliestChanged t = false) : ∃ e ∈ q.timers, e.expiration ≤ t.expiration := by
  cases hf : q.timers.first? with
  | none => simp [earliestChanged, hf] at h
  | some e =>
    have hle : e.expiration ≤ t.expiration := by simpa [earliestChanged, hf] using h
    exact ⟨e, (OrderedSet.first?_eq_some hf).1, hle⟩

/-- The new earliest timer comes before all queued timers. -/
theorem le_of_earliestChanged {q : TimerQueue} {t : Timer} (h : q.earliestChanged t = true)
    {e : Entry} (he : e ∈ q.timers) : t.expiration ≤ e.expiration := by
  cases hf : q.timers.first? with
  | none => exact absurd he (OrderedSet.first?_eq_none.mp hf e)
  | some f =>
    have hlt : t.expiration < f.expiration := by simpa [earliestChanged, hf] using h
    exact hlt.le.trans (Entry.expiration_le_of_le ((OrderedSet.first?_eq_some hf).2 e he))

/-- An added timer is covered: it arms the timerfd, or it comes after a covered one. -/
theorem Covered.added {s : State} (h : Covered s) {p : Ptr} {t : Timer} (clock : Timestamp)
    (handed : List ActiveTimer) : Covered { s with
      queue := if s.queue.earliestChanged t
        then (s.queue.inserted p t).resetTimerfd t.expiration clock else s.queue.inserted p t
      handed := handed } := by
  cases hearly : s.queue.earliestChanged t with
  | true =>
    simp only [if_true]
    refine ⟨.inl ⟨_, rfl, fun e he => ?_⟩, h.clock, ?_⟩
    · rcases mem_inserted_timers.mp he with rfl | he
      · exact le_rfl
      · exact le_of_earliestChanged hearly he
    · rintro _ ⟨⟩
      exact howMuchTimeFromNow_delay ..
  | false =>
    obtain ⟨f, hf, hle⟩ := exists_le_of_not_earliestChanged hearly
    simp only [Bool.false_eq_true, if_false]
    refine ⟨?_, h.clock, h.delay⟩
    rcases h.armed with ⟨alarm, ha, hall⟩ | hlate
    · refine .inl ⟨alarm, ha, fun e he => ?_⟩
      rcases mem_inserted_timers.mp he with rfl | he
      · exact (hall f hf).trans hle
      · exact hall e he
    · refine .inr fun e he => ?_
      rcases mem_inserted_timers.mp he with rfl | he
      · exact (hlate f hf).trans_le hle
      · exact hlate e he

/-- `reset` arms the timerfd for the first timer if that has a valid expiration.
Otherwise the first timer is older than the batch, so the alarm covered it before. -/
theorem Covered.reset {s : State} (h : Covered s) (inv : Invariant s) {now clock : Timestamp}
    {done : List Entry} {q' : TimerQueue} (hphase : s.phase = .calling now done [])
    (hr : ResetTo now done { s.queue with callingExpiredTimers := false } q') :
    Covered { s with
      queue := if q'.nextExpire.valid then q'.resetTimerfd q'.nextExpire clock else q'
      phase := .idle } := by
  have hnow := h.clock now done [] hphase
  have c : ({ s.queue with callingExpiredTimers := false } : TimerQueue).Consistent done := by
    have c := inv.consistent
    rw [hphase, Phase.batch, List.append_nil] at c
    exact c.congr rfl rfl rfl
  cases hvalid : q'.nextExpire.valid with
  | true =>
    simp only [if_true]
    refine ⟨.inl ⟨_, rfl, fun e he => ?_⟩, (by rintro _ _ _ ⟨⟩), ?_⟩
    · cases hf : q'.timers.first? with
      | none => exact absurd he (OrderedSet.first?_eq_none.mp hf e)
      | some f =>
        have hle := (OrderedSet.first?_eq_some hf).2 e he
        simpa [nextExpire, hf] using Entry.expiration_le_of_le hle
    · rintro _ ⟨⟩
      exact howMuchTimeFromNow_delay ..
  | false =>
    simp only [Bool.false_eq_true, if_false]
    refine ⟨?_, (by rintro _ _ _ ⟨⟩), fun alarm ha => h.delay alarm (hr.alarm ▸ ha)⟩
    cases hf : q'.timers.first? with
    | none => exact .inr fun e he => absurd he (OrderedSet.first?_eq_none.mp hf e)
    | some f =>
      obtain ⟨hfmem, hfle⟩ := OrderedSet.first?_eq_some hf
      have hfinv : f.expiration ≤ Timestamp.invalid := by
        have hnot := mt Timestamp.valid_iff.mpr (by simp [hvalid] : ¬ q'.nextExpire.valid = true)
        simpa [nextExpire, hf] using hnot
      -- a restarted timer is due after the batch, whose time is valid
      have hfold : f ∈ s.queue.timers := by
        rcases (hr.mem_timers c).mp hfmem with hold | ⟨it, -, t, -, hk, hfe⟩
        · exact hold
        · have hle : now ≤ f.expiration := by rw [hfe]; exact le_addTime hk.1
          exact absurd (hle.trans hfinv) (not_le.mpr hnow)
      rcases h.armed with ⟨alarm, ha, hall⟩ | hlate
      · exact .inl ⟨alarm, hr.alarm.trans ha, fun e he =>
          (hall f hfold).trans (Entry.expiration_le_of_le (hfle e he))⟩
      · have hlt : now < f.expiration := by simpa [hphase, Phase.Late] using hlate f hfold
        exact absurd (hlt.le.trans hfinv) (not_le.mpr hnow)

/-- **Step lemma**: if the clock of `handleRead` is valid, a step keeps the alarm covered. -/
theorem Effect.covered {s t : State} {a : Action} (h : Effect s a t) (inv : Invariant s)
    (hnow : ∀ now, a = .handleRead now → Timestamp.invalid < now) (hs : Covered s) :
    Covered t := by
  cases h with
  | newTimer h => exact ⟨hs.armed, hs.clock, hs.delay⟩
  | added hout ht hfresh => exact hs.added _ _
  | cancelled hout ht ha =>
    have hsub : ∀ e ∈ (s.queue.cancelled _ _ ht).timers, e ∈ s.queue.timers :=
      fun e he => (OrderedSet.mem_erase.mp he).2
    exact ⟨hs.armed.imp (fun h => h.anti rfl hsub) (fun h e he => h e (hsub e he)),
      hs.clock, hs.delay⟩
  | noted hn hcalling => exact ⟨hs.armed, hs.clock, hs.delay⟩
  | ignored hn hidle => exact hs
  | @handleRead now q' hidle hc hlate hq =>
    have hnone : q'.alarm = none := by rw [hq]
    refine ⟨.inr fun e he => ?_, ?_, fun alarm ha => ?_⟩
    · have he' : e ∈ q'.timers.toList := he
      rw [hlate, List.mem_filter] at he'
      simpa [Phase.Late] using he'.2
    · rintro _ _ _ ⟨⟩
      exact hnow now rfl
    · cases hnone.symm.trans ha
  | @run now done it rest t hphase ht =>
    refine ⟨?_, ?_, hs.delay⟩
    · simpa only [hphase, Phase.Late] using hs.armed
    · rintro _ _ _ ⟨⟩
      exact hs.clock now done (it :: rest) hphase
  | reset hphase hr => exact hs.reset inv hphase hr

/-- **No lost alarm.** In every run of a queue that starts empty and whose
`handleRead`s read a positive clock: whenever control is back in the event loop
and a timer is queued, the timerfd has been programmed since it was last read,
for a time that is not later than any queued timer, with a delay that is not
zero (a zero delay would disarm it). -/
theorem no_lost_alarm {mem : Memory} {w : List Action} {s : State}
    (h : machine.Run ⟨empty mem, .idle, []⟩ w s)
    (hclock : ∀ now, .handleRead now ∈ w → 0 < now.microSecondsSinceEpoch)
    (hidle : s.phase = .idle) (hne : s.queue.timers.toList ≠ []) :
    ∃ alarm, s.queue.alarm = some alarm ∧
      (∀ e ∈ s.queue.timers, alarm.expiration ≤ e.expiration) ∧
      0 < alarm.value.tvSec * 1000000000 + alarm.value.tvNsec := by
  have hinit : Covered ⟨empty mem, .idle, []⟩ :=
    ⟨.inr fun e he => by simp [empty] at he, by rintro _ _ _ ⟨⟩, by rintro _ ⟨⟩⟩
  have hcov := (run_emits (I := Covered) (Q := fun _ => True)
    (P := fun a => ∀ now, a = .handleRead now → Timestamp.invalid < now)
    (fun inv ha hs heff => ⟨heff.covered inv ha hs, trivial⟩)
    (.of_init ⟨mem, rfl⟩) h (by rintro _ ha now rfl; exact hclock now ha) hinit).1
  rcases hcov.armed with ⟨alarm, ha, hle⟩ | hlate
  · have hdelay := hcov.delay alarm ha
    exact ⟨alarm, ha, hle, by omega⟩
  · -- outside `handleRead` no timer is late, so none is queued
    obtain ⟨e, he⟩ := List.exists_mem_of_ne_nil _ hne
    exact absurd (hlate e he) (by rw [hidle]; exact id)

/-- A repeating timer with an expiration before the epoch: it is armed when it is
added, and again, for its next expiration, at the end of its first batch. -/
theorem no_lost_alarm_after_batch : ∃ s,
    machine.Run ⟨empty .empty, .idle, []⟩
      [.newTimer 8 ⟨-3⟩ ⟨true, 5, by decide⟩, .addTimerInLoop ⟨8, 1⟩ ⟨50⟩, .handleRead ⟨60⟩,
        .run ⟨8, 1⟩, .reset ⟨61⟩] s ∧
    ∃ alarm, s.queue.alarm = some alarm ∧
      (∀ e ∈ s.queue.timers, alarm.expiration ≤ e.expiration) ∧
      0 < alarm.value.tvSec * 1000000000 + alarm.value.tvNsec := by
  obtain ⟨s, hrun, hs⟩ := exists_run (s := ⟨empty .empty, .idle, []⟩)
    (w := [.newTimer 8 ⟨-3⟩ ⟨true, 5, by decide⟩, .addTimerInLoop ⟨8, 1⟩ ⟨50⟩,
      .handleRead ⟨60⟩, .run ⟨8, 1⟩, .reset ⟨61⟩])
    (P := fun s => !s.phase.isCalling && s.queue.timers.toList = [⟨⟨65⟩, 8⟩]) (by decide)
  simp only [Bool.and_eq_true, Bool.not_eq_true', decide_eq_true_eq] at hs
  exact ⟨s, hrun, no_lost_alarm hrun (by simp) (Phase.eq_idle hs.1) (by rw [hs.2]; simp)⟩

end TimerQueue

end Dxian
