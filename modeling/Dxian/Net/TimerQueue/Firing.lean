import Dxian.Net.TimerQueue.Ownership

/-!
# Which callbacks run, and in which order

A batch is what `getExpired` took out of the queue, in the order of `timers_`.
The callbacks may add and cancel timers while the batch is being run, but they
cannot change what is left of it.

## Main results

- `batch_trace` — a batch runs the callbacks of its entries, one after the other
- `fires_in_order` — of two queued timers the earlier one is started first
- `fires_paced` — a timer is started again one interval later, in a later batch
-/

namespace Dxian

open Transition

namespace TimerQueue

/-- The Timer that an entry points to. -/
def active? (q : TimerQueue) (it : Entry) : Option ActiveTimer :=
  (q.mem.timerAt it.timer).map fun t => ⟨it.timer, t.sequence⟩

def Action.callback? : Action → Option ActiveTimer
  | run a => some a
  | _ => none

/-- The callbacks that a run starts, in order. -/
def callbacks (w : List Action) : List ActiveTimer := w.filterMap Action.callback?

@[simp] theorem callbacks_append (v w : List Action) :
    callbacks (v ++ w) = callbacks v ++ callbacks w := List.filterMap_append ..

theorem callbacks_of_quiet {x : Action} (hx : x.Quiet) : callbacks [x] = [] := by
  cases x with
  | handleRead | run | reset => exact hx.elim
  | _ => rfl

/-! ## The batch -/

/-- A batch is sorted, and its entries were due when it was taken out. -/
structure BatchDue (s : State) : Prop where
  sorted : s.phase.batch.Pairwise (· < ·)
  due : ∀ now, s.phase.time = some now → ∀ it ∈ s.phase.batch, it.expiration ≤ now

theorem Effect.batchDue {s t : State} {x : Action} (h : Effect s x t) (hs : BatchDue s) :
    BatchDue t := by
  cases h with
  | newTimer | added | cancelled | noted | ignored => exact ⟨hs.sorted, hs.due⟩
  | handleRead hidle hc hlate hq =>
    refine ⟨expired_sorted .., ?_⟩
    rintro _ ⟨⟩ it hit
    exact (mem_expired.mp hit).2
  | @run now done it rest t hphase ht =>
    have hbatch : (Phase.calling now (done ++ [it]) rest).batch = s.phase.batch := by
      simp [hphase, Phase.batch]
    refine ⟨hbatch ▸ hs.sorted, ?_⟩
    rintro _ ⟨⟩ jt hjt
    exact hs.due now (by rw [hphase]; rfl) jt (hbatch ▸ hjt)
  | reset => exact ⟨.nil, by rintro _ ⟨⟩⟩

theorem reachable_batchDue {s : State} (h : machine.Reachable s) : BatchDue s := by
  obtain ⟨i, w, ⟨mem, rfl⟩, hrun⟩ := h
  exact (run_emits (P := fun _ => True) (Q := fun _ => True) (I := BatchDue)
    (fun _ _ hs heff => ⟨heff.batchDue hs, trivial⟩) (.of_init ⟨mem, rfl⟩) hrun (by simp)
    ⟨.nil, by rintro _ ⟨⟩⟩).1

/-- While the batch `expired` is in progress, or just after it, the callbacks
started are those of the entries that were passed, and the rest is untouched. -/
theorem batch_trace {s u : State} {now : Timestamp} {expired : List Entry} {w : List Action}
    (hs : machine.Reachable s) (hphase : s.phase = .calling now [] expired)
    (h : machine.Run s w u) (hno : ∀ x, .handleRead x ∉ w) :
    u.phase.isCalling = true ∧ u.phase.batch = expired ∧
      (∀ it ∈ expired, u.queue.mem.timerAt it.timer = s.queue.mem.timerAt it.timer) ∧
      (callbacks w).map some = u.phase.started.map s.queue.active? ∨
    u.phase = .idle ∧ (callbacks w).map some = expired.map s.queue.active? := by
  induction h with
  | nil =>
    refine .inl ⟨by rw [hphase]; rfl, by rw [hphase]; rfl, fun _ _ => rfl, ?_⟩
    rw [hphase]
    rfl
  | @snoc w u v x hrun hstep ih =>
    have hu := hs.run hrun
    have inv := reachable_invariant hu
    have heff := reachable_effect hu hstep
    have hquiet : x.Quiet → callbacks (w ++ [x]) = callbacks w ∧ v.phase = u.phase := by
      intro hx
      rw [callbacks_append, callbacks_of_quiet hx, List.append_nil]
      exact ⟨rfl, heff.phase_of_quiet hx⟩
    rcases ih (fun y hy => hno y (List.mem_append_left _ hy)) with
      ⟨hcalling, hbatch, hmem, htrace⟩ | ⟨hidle, htrace⟩
    · have hkeep : (∀ clock, x ≠ .reset clock) → ∀ it ∈ expired,
          v.queue.mem.timerAt it.timer = s.queue.mem.timerAt it.timer := fun hx it hit =>
        (heff.timerAt_of_batch inv hx (hbatch ▸ hit)).trans (hmem it hit)
      cases x with
      | newTimer | addTimerInLoop | cancelInLoop =>
        obtain ⟨hw, hφ⟩ := hquiet trivial
        rw [hw, hφ]
        exact .inl ⟨hcalling, hbatch, hkeep (by simp), htrace⟩
      | handleRead x => exact absurd (List.mem_append_right _ (List.mem_singleton_self _)) (hno x)
      | run a =>
        replace hkeep := hkeep (by simp)
        cases heff with
        | @run now' done it rest t hφ ht =>
          rw [hφ] at hbatch htrace
          have hit : it ∈ expired := by rw [← hbatch]; simp [Phase.batch]
          have hactive : s.queue.active? it = some ⟨it.timer, t.sequence⟩ := by
            rw [active?, ← hmem it hit, ht]
            rfl
          refine .inl ⟨rfl, ?_, hkeep, ?_⟩
          · simpa [Phase.batch] using hbatch
          · rw [callbacks_append, List.map_append, htrace]
            simp [Phase.started, callbacks, Action.callback?, hactive]
      | reset clock =>
        cases heff with
        | @reset now' done _ q' hφ hr =>
          rw [hφ] at hbatch htrace
          have hdone : done = expired := by simpa [Phase.batch] using hbatch
          refine .inr ⟨rfl, ?_⟩
          rw [callbacks_append, List.map_append, htrace, hdone.symm]
          simp [Phase.started, callbacks, Action.callback?]
    · -- between two batches no callback is started
      cases x with
      | newTimer | addTimerInLoop | cancelInLoop =>
        obtain ⟨hw, hφ⟩ := hquiet trivial
        rw [hw, hφ]
        exact .inr ⟨hidle, htrace⟩
      | handleRead x => exact absurd (List.mem_append_right _ (List.mem_singleton_self _)) (hno x)
      | run a => cases heff with | run hφ ht => cases hidle.symm.trans hφ
      | reset clock => cases heff with | reset hφ hr => cases hidle.symm.trans hφ

/-- The Timers of the entries of a consistent queue are distinct. -/
theorem Consistent.active_nodup {q : TimerQueue} {batch l : List Entry} (c : q.Consistent batch)
    (hl : l.Sublist q.timers.toList) {as : List ActiveTimer}
    (h : as.map some = l.map q.active?) : as.Nodup := by
  have hnd : (l.map q.active?).Nodup := by
    refine List.Nodup.map_on ?_ (q.timers.nodup.sublist hl)
    intro it hit jt hjt heq
    obtain ⟨t, ht, hte, -⟩ := (c.timers_iff it.expiration it.timer).mp (hl.subset hit)
    obtain ⟨u, hu, hue, -⟩ := (c.timers_iff jt.expiration jt.timer).mp (hl.subset hjt)
    have htimer : it.timer = jt.timer := by
      have hseq : (⟨it.timer, t.sequence⟩ : ActiveTimer) = ⟨jt.timer, u.sequence⟩ := by
        simpa [active?, ht, hu] using heq
      exact congrArg ActiveTimer.timer hseq
    refine Entry.ext ?_ htimer
    rw [htimer] at ht
    cases ht.symm.trans hu
    exact hte.symm.trans hue
  rw [← h] at hnd
  exact hnd.of_map

/-- A Timer that is added after a state is not one that was handed over before it. -/
theorem notMem_handed_of_added {s u : State} {w : List Action} (hs : machine.Reachable s)
    (h : machine.Run s w u) {a : ActiveTimer} {clock : Timestamp}
    (ha : .addTimerInLoop a clock ∈ w) : a ∉ s.handed := by
  obtain ⟨v, w', rfl⟩ := List.mem_iff_append.mp ha
  obtain ⟨m, hv, hw⟩ := h.split
  obtain ⟨m', hstep, -⟩ := hw.head
  have hm := hs.run hv
  intro hin
  have hin' := (mem_handed_iff hs hv).mpr (.inl hin)
  cases reachable_effect hm hstep with
  | added hout ht hfresh => exact hfresh hin'

/-! ## The order of two timers -/

/-- The Timer with number `n` waits under the entry `e`: in the queue, or in the
batch with its callback still to be started. -/
def State.Waiting (s : State) (e : Entry) (n : ℤ) : Prop :=
  (∃ t, s.queue.mem.timerAt e.timer = some t ∧ t.sequence = n) ∧
    (e ∈ s.queue.timers ∨ e ∈ s.phase.pending)

/-- A waiting timer goes on waiting until it is started or deleted by a cancel. -/
theorem Effect.waiting {s t : State} {x : Action} (h : Effect s x t) (inv : Invariant s)
    {e : Entry} {n : ℤ} (hw : s.Waiting e n) :
    t.Waiting e n ∨ x = .run ⟨e.timer, n⟩ ∨
      x = .cancelInLoop ⟨e.timer, n⟩ ∧ n ∈ t.queue.mem.deleted := by
  obtain ⟨⟨u, hu, hseq⟩, hin⟩ := hw
  cases h with
  | newTimer h => exact .inl ⟨⟨u, Memory.new_timerAt_of_live h hu, hseq⟩, hin⟩
  | @added p t clock hout ht hfresh =>
    refine .inl ⟨⟨u, ?_, hseq⟩, hin.imp_left fun he => ?_⟩
    · dsimp only
      split <;> exact hu
    · have he' : e ∈ (s.queue.inserted p t).timers := mem_inserted_timers.mpr (.inr he)
      dsimp only
      split <;> exact he'
  | @cancelled p v hout hv ha =>
    by_cases hp : e.timer = p
    · subst hp
      cases hu.symm.trans hv
      exact .inr (.inr ⟨by rw [hseq], hseq ▸ List.mem_cons_self ..⟩)
    · refine .inl ⟨⟨u, (Memory.released_timerAt_of_ne hv hp).trans hu, hseq⟩,
        hin.imp_left fun he => OrderedSet.mem_erase.mpr ⟨?_, he⟩⟩
      intro heq
      exact hp (congrArg Entry.timer heq)
  | noted hn hcalling => exact .inl ⟨⟨u, hu, hseq⟩, hin⟩
  | ignored hn hidle => exact .inl ⟨⟨u, hu, hseq⟩, hin⟩
  | @handleRead now q' hidle hc hlate hq =>
    have hmem : q'.mem = s.queue.mem := by rw [hq]
    have he : e ∈ s.queue.timers := by simpa [hidle, Phase.pending] using hin
    refine .inl ⟨⟨u, hmem.symm ▸ hu, hseq⟩, ?_⟩
    by_cases hle : e.expiration ≤ now
    · exact .inr (mem_expired.mpr ⟨he, hle⟩)
    · refine .inl ?_
      have hmem : e ∈ q'.timers.toList := by
        rw [hlate, List.mem_filter]
        exact ⟨he, by simpa using hle⟩
      exact hmem
  | @run now done it rest v hphase hv =>
    rw [hphase] at hin
    rcases hin with he | he
    · exact .inl ⟨⟨u, hu, hseq⟩, .inl he⟩
    · rcases List.mem_cons.mp he with rfl | he
      · cases hu.symm.trans hv
        exact .inr (.inl (by rw [hseq]))
      · exact .inl ⟨⟨u, hu, hseq⟩, .inr he⟩
  | @reset now done clock q' hphase hr =>
    have c : ({ s.queue with callingExpiredTimers := false } : TimerQueue).Consistent done := by
      have c := inv.consistent
      rw [hphase, Phase.batch, List.append_nil] at c
      exact c.congr rfl rfl rfl
    have he : e ∈ s.queue.timers := by simpa [hphase, Phase.pending] using hin
    have hout : ∀ it ∈ done, it.timer ≠ e.timer := by
      intro it hit heq
      obtain ⟨v, -, -, ha⟩ := (c.timers_iff e.expiration e.timer).mp he
      exact c.batch_inactive hit _ (heq ▸ ha)
    have hu' : q'.mem.timerAt e.timer = some u := (hr.other e.timer hout).1.trans hu
    have he' : e ∈ q'.timers := (hr.mem_timers c).mpr (.inl he)
    refine .inl ⟨⟨u, ?_, hseq⟩, .inl ?_⟩
    · dsimp only
      split <;> exact hu'
    · dsimp only
      split <;> exact he'

/-- `a` waits, `b` waits or is deleted, and `b` is not taken out before `a`. -/
structure Ahead (a b : Entry) (m n : ℤ) (s : State) : Prop where
  first : s.Waiting a m
  second : n ∈ s.queue.mem.deleted ∨ s.Waiting b n
  behind : b ∈ s.phase.pending → a ∈ s.phase.pending

/-- While `a` waits ahead of `b`, the callback of `b` is not the next one. -/
theorem Ahead.not_run {a b : Entry} {m n : ℤ} {s t : State} (h : Ahead a b m n s) (hab : a < b)
    (inv : Invariant s) (hdue : BatchDue s) : ¬ Effect s (.run ⟨b.timer, n⟩) t := by
  intro heff
  obtain ⟨now, done, it, rest, u, hphase, hu, hlabel, -⟩ := heff.of_run
  obtain ⟨htimer, rfl⟩ : b.timer = it.timer ∧ n = u.sequence := by simpa using hlabel
  have hit : it ∈ s.phase.batch := by rw [hphase]; simp [Phase.batch]
  rcases h.second with hdel | ⟨-, hb | hb⟩
  · exact s.queue.mem.deleted_dead hu hdel
  · -- a queued timer is not in the batch
    obtain ⟨v, -, -, hactive⟩ := (inv.consistent.timers_iff b.expiration b.timer).mp hb
    exact inv.consistent.batch_inactive hit _ (htimer ▸ hactive)
  · have hbit : b = it :=
      List.inj_on_of_nodup_map inv.consistent.batch_nodup
        (by rw [Phase.batch_eq]; exact List.mem_append_right _ hb) hit htimer
    have ha := h.behind hb
    have hsorted := hdue.sorted
    rw [hphase] at ha hsorted
    rcases List.mem_cons.mp ha with heq | ha
    · exact hab.ne (heq.trans hbit.symm)
    · have hlt := (List.pairwise_cons.mp (List.pairwise_append.mp hsorted).2.1).1 a ha
      exact lt_asymm hab (hbit ▸ hlt)

/-- **Step lemma** for the order of two timers. -/
theorem Ahead.step {a b : Entry} {m n : ℤ} {s t : State} {x : Action} (h : Ahead a b m n s)
    (hab : a.expiration < b.expiration) (inv : Invariant s) (hdue : BatchDue s)
    (heff : Effect s x t) (hrun : x ≠ .run ⟨a.timer, m⟩)
    (hcancel : x ≠ .cancelInLoop ⟨a.timer, m⟩) :
    Ahead a b m n t ∧ x ≠ .run ⟨b.timer, n⟩ := by
  have hlt : a < b := Entry.lt_iff.mpr (.inl hab)
  have hnot : x ≠ .run ⟨b.timer, n⟩ := by
    rintro rfl
    exact h.not_run hlt inv hdue heff
  have hfirst : t.Waiting a m := by
    rcases heff.waiting inv h.first with hw | hx | ⟨hx, -⟩
    · exact hw
    · exact absurd hx hrun
    · exact absurd hx hcancel
  have hsecond : n ∈ t.queue.mem.deleted ∨ t.Waiting b n := by
    rcases h.second with hdel | hw
    · exact .inl (heff.deleted_mono hdel)
    · rcases heff.waiting inv hw with hw | hx | ⟨-, hdel⟩
      · exact .inr hw
      · exact absurd hx hnot
      · exact .inl hdel
  refine ⟨⟨hfirst, hsecond, fun hb => ?_⟩, hnot⟩
  cases heff with
  | newTimer | added | cancelled | noted | ignored => exact h.behind hb
  | @handleRead now q' hidle hc hlate hq =>
    have ha : a ∈ s.queue.timers := by simpa [hidle, Phase.pending] using h.first.2
    exact mem_expired.mpr ⟨ha, hab.le.trans (mem_expired.mp hb).2⟩
  | @run now done it rest u hphase hu =>
    have ha := h.behind (by rw [hphase]; exact List.mem_cons_of_mem _ hb)
    rw [hphase] at ha
    rcases List.mem_cons.mp ha with rfl | ha
    · obtain ⟨v, hv, rfl⟩ := h.first.1
      cases hu.symm.trans hv
      exact absurd rfl hrun
    · exact ha
  | reset hphase hr => cases hb

/-- Of two queued timers the one that expires first is started first, unless it is cancelled. -/
theorem fires_in_order {s u : State} {a b : Entry} {t₁ t₂ : Timer} {w : List Action}
    (hs : machine.Reachable s) (ha : a ∈ s.queue.timers) (hb : b ∈ s.queue.timers)
    (hab : a.expiration < b.expiration) (ht₁ : s.queue.mem.timerAt a.timer = some t₁)
    (ht₂ : s.queue.mem.timerAt b.timer = some t₂)
    (h : machine.Run s (w ++ [.run ⟨b.timer, t₂.sequence⟩]) u)
    (hcancel : .cancelInLoop ⟨a.timer, t₁.sequence⟩ ∉ w) :
    .run ⟨a.timer, t₁.sequence⟩ ∈ w := by
  by_contra hnot
  have hahead : Ahead a b t₁.sequence t₂.sequence s := by
    refine ⟨⟨⟨t₁, ht₁, rfl⟩, .inl ha⟩, .inr ⟨⟨t₂, ht₂, rfl⟩, .inl hb⟩, fun hpend => ?_⟩
    -- nothing is queued and in the batch at once
    have hbatch : b ∈ s.phase.batch := by
      rw [Phase.batch_eq]; exact List.mem_append_right _ hpend
    obtain ⟨v, -, -, hactive⟩ :=
      ((reachable_invariant hs).consistent.timers_iff b.expiration b.timer).mp hb
    exact absurd hactive ((reachable_invariant hs).consistent.batch_inactive hbatch _)
  obtain ⟨m, hw, hlast⟩ := h.split
  obtain ⟨m', hstep, -⟩ := hlast.head
  have hm := hs.run hw
  have hrun := hw.preserves (I := fun s => machine.Reachable s ∧
      Ahead a b t₁.sequence t₂.sequence s)
    (P := fun x => x ≠ .run ⟨a.timer, t₁.sequence⟩ ∧ x ≠ .cancelInLoop ⟨a.timer, t₁.sequence⟩)
    (fun hx hI hst => ⟨hI.1.step hst, (hI.2.step hab (reachable_invariant hI.1)
      (reachable_batchDue hI.1) (reachable_effect hI.1 hst) hx.1 hx.2).1⟩)
    (fun x hx => ⟨fun heq => hnot (heq ▸ hx), fun heq => hcancel (heq ▸ hx)⟩) ⟨hs, hahead⟩
  exact hrun.2.not_run (Entry.lt_iff.mpr (.inl hab)) (reachable_invariant hm)
    (reachable_batchDue hm) (reachable_effect hm hstep)

/-! ## Two runs of one timer -/

/-- After its run in the batch of `now`, the Timer `a` is deleted, or still in
that batch with its callback started, or due `interval` later at the earliest. -/
def State.Paced (a : ActiveTimer) (interval : Seconds) (now : Timestamp) (s : State) : Prop :=
  s.Deleted a ∨ ∃ t, s.queue.mem.timerAt a.timer = some t ∧ t.sequence = a.sequence ∧
    t.interval = interval ∧
    ((∃ it ∈ s.phase.started, it.timer = a.timer) ∧ s.phase.time = some now ∨
      (∀ it ∈ s.phase.started, it.timer ≠ a.timer) ∧ addTime now interval ≤ t.expiration)

/-- **Step lemma** for the distance between two runs. -/
theorem Effect.paced {s t : State} {x : Action} (h : Effect s x t) {a : ActiveTimer}
    {interval : Seconds} {now : Timestamp} (hx : x ≠ .run a) (hs : s.Paced a interval now) :
    t.Paced a interval now := by
  obtain ⟨p, n⟩ := a
  rcases hs with hdel | ⟨u, hu, hseq, hint, hwhen⟩
  · exact .inl (h.deleted_mono hdel)
  simp only at hu hseq hwhen
  cases h with
  | newTimer h => exact .inr ⟨u, Memory.new_timerAt_of_live h hu, hseq, hint, hwhen⟩
  | added hout ht hfresh =>
    refine .inr ⟨u, ?_, hseq, hint, hwhen⟩
    dsimp only
    split <;> exact hu
  | @cancelled r v hout hv ha =>
    by_cases hp : p = r
    · subst hp
      cases hu.symm.trans hv
      exact .inl (hseq ▸ List.mem_cons_self ..)
    · exact .inr ⟨u, (Memory.released_timerAt_of_ne hv hp).trans hu, hseq, hint, hwhen⟩
  | noted hn hcalling => exact .inr ⟨u, hu, hseq, hint, hwhen⟩
  | ignored hn hidle => exact .inr ⟨u, hu, hseq, hint, hwhen⟩
  | @handleRead now' q' hidle hc hlate hq =>
    have hmem : q'.mem = s.queue.mem := by rw [hq]
    rcases hwhen with ⟨⟨it, hit, -⟩, -⟩ | ⟨-, hle⟩
    · simp [hidle, Phase.started] at hit
    · exact .inr ⟨u, hmem.symm ▸ hu, hseq, hint, .inr ⟨by simp [Phase.started], hle⟩⟩
  | @run now' done it rest v hphase hv =>
    rw [hphase] at hwhen
    have hne : it.timer ≠ p := by
      rintro rfl
      cases hu.symm.trans hv
      exact hx (by rw [hseq])
    refine .inr ⟨u, hu, hseq, hint, hwhen.imp ?_ ?_⟩
    · intro ⟨⟨jt, hjt, heq⟩, htime⟩
      exact ⟨⟨jt, List.mem_append_left _ hjt, heq⟩, htime⟩
    · intro ⟨hall, hle⟩
      refine ⟨fun jt hjt => ?_, hle⟩
      rcases List.mem_append.mp hjt with hjt | hjt
      · exact hall jt hjt
      · rw [List.mem_singleton.mp hjt]
        exact hne
  | @reset now' done clock q' hphase hr =>
    rw [hphase] at hwhen
    have hq : ∀ v, q'.mem.timerAt p = some v → v.sequence = n → v.interval = interval →
        addTime now interval ≤ v.expiration → State.Paced ⟨p, n⟩ interval now { s with
          queue := if q'.nextExpire.valid then q'.resetTimerfd q'.nextExpire clock else q'
          phase := .idle } := by
      intro v hv hn hi hle
      refine .inr ⟨v, ?_, hn, hi, .inr ⟨by simp [Phase.started], hle⟩⟩
      dsimp only
      split <;> exact hv
    rcases hwhen with ⟨⟨it, hit, rfl⟩, htime⟩ | ⟨hout, hle⟩
    · cases htime
      by_cases hk : ({ s.queue with callingExpiredTimers := false } : TimerQueue).Kept it u
      · refine hq _ (hr.kept it hit u hu hk).1 ?_ ?_ ?_
        · rw [Timer.restart_sequence, hseq]
        · rw [Timer.restart_interval, hint]
        · rw [Timer.restart_expiration hk.1, hint]
      · refine .inl ?_
        have hdel := (hr.deleted n).mpr (.inr ⟨it, hit, u, hu, hk, hseq⟩)
        rw [State.Deleted]
        dsimp only
        split <;> exact hdel
    · exact hq u ((hr.other p hout).1.trans hu) hseq hint hle

/-- A Timer whose callback has been started is not started again in this batch. -/
theorem Effect.passed {s t : State} {x : Action} (h : Effect s x t) (inv : Invariant s) {p : Ptr}
    (hx : ∀ now, x ≠ .handleRead now)
    (hs : s.phase = .idle ∨ ∃ it ∈ s.phase.started, it.timer = p) :
    (t.phase = .idle ∨ ∃ it ∈ t.phase.started, it.timer = p) ∧ ∀ n, x ≠ .run ⟨p, n⟩ := by
  cases h with
  | newTimer | added | cancelled | noted | ignored => exact ⟨hs, by simp⟩
  | handleRead => exact absurd rfl (hx _)
  | @run now done it rest u hphase hu =>
    rw [hphase] at hs
    rcases hs with hidle | ⟨jt, hjt, rfl⟩
    · cases hidle
    · refine ⟨.inr ⟨jt, List.mem_append_left _ hjt, rfl⟩, ?_⟩
      intro n heq
      have htimer : it.timer = jt.timer ∧ u.sequence = n := by simpa using heq
      exact inv.started_ne hphase hjt htimer.1.symm
  | reset => exact ⟨.inl rfl, by simp⟩

/-- Between two runs of a Timer there is another `handleRead`, whose clock reading
is at least the interval of the Timer later. -/
theorem fires_paced {s s₁ u u₁ : State} {a : ActiveTimer} {t : Timer} {w : List Action}
    (hs : machine.Reachable s) (hfirst : machine.step s (.run a) (.ok s₁))
    (ht : s.queue.mem.timerAt a.timer = some t) (hw : machine.Run s₁ w u)
    (hsecond : machine.step u (.run a) (.ok u₁)) (hbetween : .run a ∉ w) :
    (∃ now, .handleRead now ∈ w) ∧ ∃ now₁ now₂, s.phase.time = some now₁ ∧
      u.phase.time = some now₂ ∧ addTime now₁ t.interval ≤ now₂ := by
  obtain ⟨now₁, done₁, it₁, rest₁, v₁, hphase₁, hv₁, rfl, rfl⟩ :=
    (reachable_effect hs hfirst).of_run
  cases hv₁.symm.trans ht
  have hs₁ := hs.step hfirst
  have hu := hs₁.run hw
  have inv := reachable_invariant hu
  obtain ⟨now₂, done₂, it₂, rest₂, v₂, hphase₂, hv₂, ha, -⟩ := (reachable_effect hu hsecond).of_run
  obtain ⟨htimer, hseq⟩ : it₁.timer = it₂.timer ∧ t.sequence = v₂.sequence := by simpa using ha
  have hnotRun : ∀ x ∈ w, x ≠ .run ⟨it₁.timer, t.sequence⟩ :=
    fun x hx heq => hbetween (heq ▸ hx)
  refine ⟨?_, now₁, now₂, by rw [hphase₁]; rfl, by rw [hphase₂]; rfl, ?_⟩
  · by_contra hnone
    have hno : ∀ x ∈ w, ∀ now, x ≠ .handleRead now :=
      fun x hx now heq => hnone ⟨now, heq ▸ hx⟩
    have hpassed := (run_emits (Q := fun _ => True)
      (I := fun s => s.phase = .idle ∨ ∃ it ∈ s.phase.started, it.timer = it₁.timer)
      (fun inv hx hI heff => ⟨(heff.passed inv hx hI).1, trivial⟩) hs₁ hw hno
      (.inr ⟨it₁, List.mem_append_right _ (List.mem_singleton_self _), rfl⟩)).1
    rw [hphase₂] at hpassed
    rcases hpassed with hidle | ⟨jt, hjt, hjtimer⟩
    · cases hidle
    · exact inv.started_ne hphase₂ hjt (hjtimer.trans htimer)
  · have hpaced := (run_emits (Q := fun _ => True)
      (I := State.Paced ⟨it₁.timer, t.sequence⟩ t.interval now₁)
      (fun _ hx hI heff => ⟨heff.paced hx hI, trivial⟩) hs₁ hw hnotRun
      (.inr ⟨t, ht, rfl, rfl, .inl ⟨⟨it₁, List.mem_append_right _ (List.mem_singleton_self _),
        rfl⟩, rfl⟩⟩)).1
    rcases hpaced with hdel | ⟨v, hv, -, -, ⟨⟨jt, hjt, hjtimer⟩, -⟩ | ⟨-, hle⟩⟩
    · exact absurd (hseq ▸ hdel) (u.queue.mem.deleted_dead hv₂)
    · rw [hphase₂] at hjt
      exact absurd (hjtimer.trans htimer) (inv.started_ne hphase₂ hjt)
    · -- the entry carries the expiration of its Timer, and was due
      have hbatch : it₂ ∈ u.phase.batch := by rw [hphase₂]; simp [Phase.batch]
      obtain ⟨v', hv', hexp, -⟩ := inv.consistent.batch_live it₂ hbatch
      cases hv'.symm.trans (htimer ▸ hv)
      have hdue := (reachable_batchDue hu).due now₂ (by rw [hphase₂]; rfl) it₂ hbatch
      exact hle.trans (hexp ▸ hdue)

/-! ## The three together -/

/-- **Firing is exact, ordered and paced.**

`handleRead` can be entered whenever no batch is in progress, and from every
state the batch in progress can be run to its end. In the second part `s₁` is the
queue after `getExpired`, `w` is the rest of the `handleRead` and whatever follows
it up to the next one: the callbacks that run are those of the entries with
expiration at most `now`, in the order of `timers_`, each once; the later entries
stay; a timer added meanwhile is not started. The other parts are about any
stretch of a run. -/
theorem firing_exact_ordered_paced :
    (∀ s, machine.Reachable s →
      (s.phase = .idle → ∀ now, ∃ s₁, machine.step s (.handleRead now) (.ok s₁)) ∧
      ∃ w u, machine.Run s w u ∧ (∀ x, .handleRead x ∉ w) ∧ u.phase = .idle) ∧
    (∀ s s₁ u now w, machine.Reachable s → machine.step s (.handleRead now) (.ok s₁) →
      machine.Run s₁ w u → (∀ x, .handleRead x ∉ w) → u.phase = .idle →
      (callbacks w).map some =
          (s.queue.timers.toList.filter (·.expiration ≤ now)).map s.queue.active? ∧
        (s.queue.timers.toList.filter (·.expiration ≤ now)).Pairwise
          (·.expiration ≤ ·.expiration) ∧
        (callbacks w).Nodup ∧
        s₁.queue.timers.toList = s.queue.timers.toList.filter (now < ·.expiration) ∧
        ∀ a clock, .addTimerInLoop a clock ∈ w → a ∉ callbacks w) ∧
    (∀ s u a b t₁ t₂ w, machine.Reachable s → a ∈ s.queue.timers → b ∈ s.queue.timers →
      a.expiration < b.expiration → s.queue.mem.timerAt a.timer = some t₁ →
      s.queue.mem.timerAt b.timer = some t₂ →
      machine.Run s (w ++ [.run ⟨b.timer, t₂.sequence⟩]) u →
      .cancelInLoop ⟨a.timer, t₁.sequence⟩ ∉ w → .run ⟨a.timer, t₁.sequence⟩ ∈ w) ∧
    (∀ s s₁ u u₁ a t w, machine.Reachable s → machine.step s (.run a) (.ok s₁) →
      s.queue.mem.timerAt a.timer = some t → machine.Run s₁ w u →
      machine.step u (.run a) (.ok u₁) → .run a ∉ w →
      (∃ now, .handleRead now ∈ w) ∧ ∃ now₁ now₂, s.phase.time = some now₁ ∧
        u.phase.time = some now₂ ∧ now₁.microSecondsSinceEpoch + t.interval.microSeconds ≤
          now₂.microSecondsSinceEpoch) := by
  refine ⟨fun s hs => ⟨fun hidle => exists_handleRead hs hidle, exists_completion hs⟩,
    fun s s₁ u now w hs hstep hw hno hidle => ?_,
    fun s u a b t₁ t₂ w hs ha hb hab ht₁ ht₂ h hc => fires_in_order hs ha hb hab ht₁ ht₂ h hc,
    fun s s₁ u u₁ a t w hs h₁ ht hw h₂ hn => fires_paced hs h₁ ht hw h₂ hn⟩
  have c := (reachable_invariant hs).consistent
  have hs₁ := hs.step hstep
  have inv₁ := reachable_invariant hs₁
  cases reachable_effect hs hstep with
  | @handleRead _ q' hphase hc hlate hq =>
    have hmem : q'.mem = s.queue.mem := by rw [hq]
    have htrace : (callbacks w).map some = (s.queue.expired now).map s.queue.active? := by
      rcases batch_trace hs₁ rfl hw hno with ⟨hcalling, -⟩ | ⟨-, htrace⟩
      · rw [hidle] at hcalling
        cases hcalling
      · rw [htrace]
        exact List.map_congr_left fun it _ => by simp only [active?, hmem]
    refine ⟨htrace, ?_, c.active_nodup List.filter_sublist htrace, hlate, fun a clock ha hrun => ?_⟩
    · exact (expired_sorted s.queue now).imp fun h => Entry.expiration_le_of_le h.le
    · -- the callbacks are those of Timers that were handed over before the batch
      refine notMem_handed_of_added hs₁ hw ha (inv₁.batch_handed a ?_)
      have hin : some a ∈ (s.queue.expired now).map s.queue.active? := by
        rw [← htrace]
        exact List.mem_map_of_mem hrun
      obtain ⟨it, hit, hactive⟩ := List.mem_map.mp hin
      obtain ⟨t, ht, hta⟩ := Option.map_eq_some_iff.mp hactive
      exact ⟨it, hit, t, hmem.symm ▸ ht, hta⟩

/-- A repeating and a one-shot timer in one batch, and the repeating one again in the next. -/
theorem firing_exact_ordered_paced_two_batches : ∃ s s₁ s₂ u u₁ : State,
    machine.step s (.handleRead ⟨100⟩) (.ok s₁) ∧
    machine.step s₁ (.run ⟨16, 2⟩) (.ok s₂) ∧
    machine.Run s₂ [.run ⟨8, 1⟩, .reset ⟨101⟩] u ∧
    machine.Run u [.handleRead ⟨105⟩, .run ⟨16, 2⟩] u₁ ∧
    (callbacks [.run ⟨16, 2⟩, .run ⟨8, 1⟩, .reset ⟨101⟩]).map some =
      (s.queue.timers.toList.filter (·.expiration ≤ ⟨100⟩)).map s.queue.active? ∧
    .run ⟨16, 2⟩ ∈ [Action.handleRead ⟨100⟩, .run ⟨16, 2⟩] ∧
    ∃ now, .handleRead now ∈ [Action.run ⟨8, 1⟩, .reset ⟨101⟩, .handleRead ⟨105⟩] := by
  obtain ⟨s, hs, hP⟩ := exists_run (s := ⟨empty .empty, .idle, []⟩)
    (w := [.newTimer 8 ⟨100⟩ .zero, .newTimer 16 ⟨90⟩ ⟨true, 5, by decide⟩,
      .addTimerInLoop ⟨8, 1⟩ ⟨50⟩, .addTimerInLoop ⟨16, 2⟩ ⟨50⟩])
    (P := fun s => (⟨⟨90⟩, 16⟩ : Entry) ∈ s.queue.timers ∧ (⟨⟨100⟩, 8⟩ : Entry) ∈ s.queue.timers ∧
      (s.queue.mem.timerAt 16).map Timer.sequence = some 2 ∧
      (s.queue.mem.timerAt 8).map Timer.sequence = some 1 ∧
      (next s (.handleRead ⟨100⟩)).any fun s₁ => (s₁.queue.mem.timerAt 16).isSome ∧
        (next s₁ (.run ⟨16, 2⟩)).any fun s₂ => (next s₂ (.run ⟨8, 1⟩)).any fun s₃ =>
          (next s₃ (.reset ⟨101⟩)).any fun u => !u.phase.isCalling ∧
            (next u (.handleRead ⟨105⟩)).any fun v => (next v (.run ⟨16, 2⟩)).any fun _ => true)
    (by decide)
  simp only [decide_eq_true_eq] at hP
  obtain ⟨hlate, hearly, h16, h8, hP⟩ := hP
  obtain ⟨t₁, ht₁, hseq₁⟩ := Option.map_eq_some_iff.mp h16
  obtain ⟨t₂, ht₂, hseq₂⟩ := Option.map_eq_some_iff.mp h8
  obtain ⟨s₁, hread, hP⟩ := exists_step hP
  simp only [decide_eq_true_eq] at hP
  obtain ⟨hlive, hP⟩ := hP
  obtain ⟨t, ht⟩ := Option.isSome_iff_exists.mp hlive
  obtain ⟨s₂, hrun₁, hP⟩ := exists_step hP
  obtain ⟨s₃, hrun₂, hP⟩ := exists_step hP
  obtain ⟨u, hreset, hP⟩ := exists_step hP
  simp only [decide_eq_true_eq, Bool.not_eq_true'] at hP
  obtain ⟨hidle, hP⟩ := hP
  obtain ⟨v, hread', hP⟩ := exists_step hP
  obtain ⟨u₁, hrun₃, -⟩ := exists_step hP
  have hinit : machine.Reachable ⟨empty .empty, .idle, []⟩ := .of_init ⟨_, rfl⟩
  have hreach := hinit.run hs
  have hbatch : machine.Run s₁ [.run ⟨16, 2⟩, .run ⟨8, 1⟩, .reset ⟨101⟩] u :=
    .cons hrun₁ (.cons hrun₂ (.single hreset))
  have hfirst : machine.Run s ([.handleRead ⟨100⟩, .run ⟨16, 2⟩] ++ [.run ⟨8, 1⟩]) s₃ :=
    .cons hread (.cons hrun₁ (.single hrun₂))
  obtain ⟨-, hexact, hordered, hpaced⟩ := firing_exact_ordered_paced
  refine ⟨s, s₁, s₂, u, u₁, hread, hrun₁, .cons hrun₂ (.single hreset),
    .cons hread' (.single hrun₃), ?_, ?_, ?_⟩
  · exact (hexact s s₁ u _ _ hreach hread hbatch (by simp) (Phase.eq_idle hidle)).1
  · have horder := hordered s s₃ ⟨⟨90⟩, 16⟩ ⟨⟨100⟩, 8⟩ t₁ t₂ [.handleRead ⟨100⟩, .run ⟨16, 2⟩]
      hreach hlate hearly (by decide) ht₁ ht₂ (by rw [hseq₂]; exact hfirst) (by simp)
    rwa [hseq₁] at horder
  · exact (hpaced s₁ s₂ v u₁ ⟨16, 2⟩ t _ (hreach.step hread) hrun₁ ht
      (.cons hrun₂ (.cons hreset (.single hread'))) hrun₃ (by simp)).1

end TimerQueue

end Dxian
