import Dxian.Net.TimerQueue.Defs

/-!
# The representation invariant of the timer queue

`Consistent q batch` ties the two sets of `q` to each other and to the heap,
with `batch` the timers that `handleRead` holds outside both sets. From a
consistent state every member function succeeds; the equations below give its
result, and later proofs use the equations instead of the function bodies.
-/

namespace Dxian

namespace TimerQueue

/-- The two sets list the same live timers, a batch lists live timers that are
in neither set. -/
structure Consistent (q : TimerQueue) (batch : List Entry) : Prop where
  timers_iff : ∀ e p, (⟨e, p⟩ : Entry) ∈ q.timers ↔
    ∃ t, q.mem.timerAt p = some t ∧ t.expiration = e ∧
      (⟨p, t.sequence⟩ : ActiveTimer) ∈ q.activeTimers
  active_live : ∀ p n, (⟨p, n⟩ : ActiveTimer) ∈ q.activeTimers →
    ∃ t, q.mem.timerAt p = some t ∧ t.sequence = n
  batch_live : ∀ it ∈ batch, ∃ t, q.mem.timerAt it.timer = some t ∧
    t.expiration = it.expiration ∧ (⟨it.timer, t.sequence⟩ : ActiveTimer) ∉ q.activeTimers
  batch_nodup : (batch.map Entry.timer).Nodup

theorem consistent_empty (mem : Memory) : (empty mem).Consistent [] where
  timers_iff e p := by simp [empty]
  active_live p n h := by simp [empty] at h
  batch_live it h := by simp at h
  batch_nodup := .nil

section

variable {q : TimerQueue} {batch rest : List Entry} {it : Entry} {p : Ptr} {t : Timer} {n : ℤ}

namespace Consistent

/-- The asserts on the sizes hold. -/
theorem sizes (c : q.Consistent batch) : q.timers.size = q.activeTimers.size := by
  let seq : Entry → ActiveTimer := fun e =>
    ⟨e.timer, ((q.mem.timerAt e.timer).map Timer.sequence).getD 0⟩
  let exp : ActiveTimer → Entry := fun a =>
    ⟨((q.mem.timerAt a.timer).map Timer.expiration).getD Timestamp.invalid, a.timer⟩
  refine OrderedSet.size_eq_of_inverse seq exp ?_ ?_ ?_ ?_
  · rintro ⟨e, p⟩ he
    obtain ⟨t, ht, -, ha⟩ := (c.timers_iff e p).mp he
    simpa [seq, ht] using ha
  · rintro ⟨p, n⟩ ha
    obtain ⟨t, ht, rfl⟩ := c.active_live p n ha
    exact (c.timers_iff _ p).mpr ⟨t, ht, by simp [ht], ha⟩
  · rintro ⟨e, p⟩ he
    obtain ⟨t, ht, rfl, -⟩ := (c.timers_iff e p).mp he
    simp [seq, exp, ht]
  · rintro ⟨p, n⟩ ha
    obtain ⟨t, ht, rfl⟩ := c.active_live p n ha
    simp [seq, exp, ht]

theorem check_sizes (c : q.Consistent batch) :
    check (q.timers.size == q.activeTimers.size) = .ok () := by
  rw [c.sizes, beq_self_eq_true, check_true]

theorem sequence_eq (c : q.Consistent batch) (ht : q.mem.timerAt p = some t)
    (ha : (⟨p, n⟩ : ActiveTimer) ∈ q.activeTimers) : n = t.sequence := by
  obtain ⟨u, hu, rfl⟩ := c.active_live p n ha
  cases ht.symm.trans hu
  rfl

/-- A timer of the batch is in `activeTimers_` under no sequence number. -/
theorem batch_inactive (c : q.Consistent batch) (hit : it ∈ batch) (n : ℤ) :
    (⟨it.timer, n⟩ : ActiveTimer) ∉ q.activeTimers := by
  obtain ⟨t, ht, -, hn⟩ := c.batch_live it hit
  intro ha
  rw [c.sequence_eq ht ha] at ha
  exact hn ha

theorem queued (c : q.Consistent batch) (ht : q.mem.timerAt p = some t)
    (ha : (⟨p, t.sequence⟩ : ActiveTimer) ∈ q.activeTimers) :
    (⟨t.expiration, p⟩ : Entry) ∈ q.timers :=
  (c.timers_iff _ _).mpr ⟨t, ht, rfl, ha⟩

/-- A timer that is not active is in `timers_` under no expiration. -/
theorem not_queued (c : q.Consistent batch) (ht : q.mem.timerAt p = some t)
    (hn : (⟨p, t.sequence⟩ : ActiveTimer) ∉ q.activeTimers) (e : Timestamp) :
    (⟨e, p⟩ : Entry) ∉ q.timers := by
  intro he
  obtain ⟨u, hu, -, ha⟩ := (c.timers_iff e p).mp he
  cases ht.symm.trans hu
  exact hn ha

/-- The invariant reads the heap and the two sets only. -/
theorem congr {q' : TimerQueue} (c : q.Consistent batch) (hm : q'.mem = q.mem)
    (ht : q'.timers = q.timers) (ha : q'.activeTimers = q.activeTimers) :
    q'.Consistent batch where
  timers_iff := by rw [hm, ht, ha]; exact c.timers_iff
  active_live := by rw [hm, ha]; exact c.active_live
  batch_live := by rw [hm, ha]; exact c.batch_live
  batch_nodup := c.batch_nodup

end Consistent

/-! ## insert -/

/-- The queue with `t`, at `p`, in both sets. -/
def inserted (q : TimerQueue) (p : Ptr) (t : Timer) : TimerQueue :=
  { q with
    timers := (q.timers.insert ⟨t.expiration, p⟩).1
    activeTimers := (q.activeTimers.insert ⟨p, t.sequence⟩).1 }

@[simp] theorem inserted_mem (q : TimerQueue) : (q.inserted p t).mem = q.mem := rfl

theorem mem_inserted_active {q : TimerQueue} {a : ActiveTimer} :
    a ∈ (q.inserted p t).activeTimers ↔ a = ⟨p, t.sequence⟩ ∨ a ∈ q.activeTimers :=
  OrderedSet.mem_insert

theorem mem_inserted_timers {q : TimerQueue} {e : Entry} :
    e ∈ (q.inserted p t).timers ↔ e = ⟨t.expiration, p⟩ ∨ e ∈ q.timers :=
  OrderedSet.mem_insert

/-- `insert` reports that its timer is the new earliest one. -/
def earliestChanged (q : TimerQueue) (t : Timer) : Bool :=
  q.timers.first?.all (t.expiration < ·.expiration)

/-- Inserting a live timer that is in neither set keeps the invariant; it leaves the batch. -/
theorem Consistent.inserted (c : q.Consistent batch) (ht : q.mem.timerAt p = some t)
    (hsub : rest.Sublist batch) (hp : ∀ it ∈ rest, it.timer ≠ p) :
    (q.inserted p t).Consistent rest where
  timers_iff e r := by
    rw [mem_inserted_timers, c.timers_iff]
    simp only [mem_inserted_active, inserted_mem]
    constructor
    · rintro (h | ⟨u, hu, he, ha⟩)
      · cases h
        exact ⟨t, ht, rfl, .inl rfl⟩
      · exact ⟨u, hu, he, .inr ha⟩
    · rintro ⟨u, hu, he, h | ha⟩
      · obtain rfl : r = p := congrArg ActiveTimer.timer h
        cases ht.symm.trans hu
        exact .inl (by rw [he])
      · exact .inr ⟨u, hu, he, ha⟩
  active_live r n ha := by
    rcases mem_inserted_active.mp ha with h | ha
    · cases h
      exact ⟨t, ht, rfl⟩
    · exact c.active_live r n ha
  batch_live it hit := by
    obtain ⟨u, hu, he, ha⟩ := c.batch_live it (hsub.subset hit)
    refine ⟨u, hu, he, fun h => ?_⟩
    rcases mem_inserted_active.mp h with h | h
    · exact hp it hit (congrArg ActiveTimer.timer h)
    · exact ha h
  batch_nodup := c.batch_nodup.sublist (hsub.map _)

theorem insert_eq (c : q.Consistent batch) (ht : q.mem.timerAt p = some t)
    (hn : (⟨p, t.sequence⟩ : ActiveTimer) ∉ q.activeTimers) :
    q.insert p = .ok (q.earliestChanged t, q.inserted p t) := by
  have htimers : (q.timers.insert ⟨t.expiration, p⟩).2 = true :=
    OrderedSet.insert_snd.mpr (c.not_queued ht hn _)
  have hactive : (q.activeTimers.insert ⟨p, t.sequence⟩).2 = true :=
    OrderedSet.insert_snd.mpr hn
  have hsizes := (c.inserted ht (List.nil_sublist _) (by simp)).check_sizes
  simp only [TimerQueue.inserted] at hsizes
  simp only [insert, c.check_sizes, Memory.deref_of_live ht, htimers, hactive, check_true,
    hsizes, bind, Except.bind, pure, Except.pure, earliestChanged, TimerQueue.inserted]

/-- `addTimerInLoop` on a live timer that is in neither set. -/
theorem addTimerInLoop_eq (c : q.Consistent batch) (ht : q.mem.timerAt p = some t)
    (hn : (⟨p, t.sequence⟩ : ActiveTimer) ∉ q.activeTimers) (clock : Timestamp) :
    q.addTimerInLoop p clock = .ok (if q.earliestChanged t
      then (q.inserted p t).resetTimerfd t.expiration clock else q.inserted p t) := by
  simp only [addTimerInLoop, insert_eq c ht hn, bind, Except.bind, pure, Except.pure,
    inserted_mem, Memory.deref_of_live ht]
  split <;> rfl

/-! ## cancelInLoop -/

/-- The queue after `cancelInLoop` has deleted the queued timer `t` at `p`. -/
def cancelled (q : TimerQueue) (p : Ptr) (t : Timer) (ht : q.mem.timerAt p = some t) :
    TimerQueue :=
  { q with
    mem := q.mem.released p t ht
    timers := (q.timers.erase ⟨t.expiration, p⟩).1
    activeTimers := (q.activeTimers.erase ⟨p, t.sequence⟩).1 }

theorem Consistent.cancelled (c : q.Consistent batch) (ht : q.mem.timerAt p = some t)
    (ha : (⟨p, t.sequence⟩ : ActiveTimer) ∈ q.activeTimers) :
    (q.cancelled p t ht).Consistent batch where
  timers_iff e r := by
    simp only [TimerQueue.cancelled, OrderedSet.mem_erase, c.timers_iff]
    by_cases hr : r = p
    · subst hr
      simp only [Memory.released_timerAt_self, reduceCtorEq, false_and, exists_false, iff_false]
      rintro ⟨hne, u, hu, he, -⟩
      cases ht.symm.trans hu
      exact hne (by rw [he])
    · rw [Memory.released_timerAt_of_ne ht hr]
      constructor
      · rintro ⟨-, u, hu, he, h⟩
        exact ⟨u, hu, he, fun heq => hr (congrArg ActiveTimer.timer heq), h⟩
      · rintro ⟨u, hu, he, -, h⟩
        exact ⟨fun heq => hr (congrArg Entry.timer heq), u, hu, he, h⟩
  active_live r n h := by
    simp only [TimerQueue.cancelled, OrderedSet.mem_erase] at h
    have hr : r ≠ p := by
      rintro rfl
      rw [c.sequence_eq ht h.2] at h
      exact h.1 rfl
    simp only [TimerQueue.cancelled, Memory.released_timerAt_of_ne ht hr]
    exact c.active_live r n h.2
  batch_live it hit := by
    have hr : it.timer ≠ p := by
      rintro rfl
      exact c.batch_inactive hit _ ha
    obtain ⟨u, hu, he, hn⟩ := c.batch_live it hit
    refine ⟨u, ?_, he, fun h => hn ?_⟩
    · simpa only [TimerQueue.cancelled, Memory.released_timerAt_of_ne ht hr] using hu
    · exact (OrderedSet.mem_erase.mp h).2
  batch_nodup := c.batch_nodup

/-- `cancelInLoop` of a queued timer. -/
theorem cancelInLoop_of_active (c : q.Consistent batch) (ht : q.mem.timerAt p = some t)
    (ha : (⟨p, t.sequence⟩ : ActiveTimer) ∈ q.activeTimers) :
    q.cancelInLoop ⟨p, t.sequence⟩ = .ok (q.cancelled p t ht) := by
  have hone : (q.timers.erase ⟨t.expiration, p⟩).2 = 1 := OrderedSet.erase_snd (c.queued ht ha)
  have hsizes := (c.cancelled ht ha).check_sizes
  simp only [TimerQueue.cancelled] at hsizes
  simp only [cancelInLoop, TimerId.toActive, c.check_sizes, ha, if_true, Memory.deref_of_live ht,
    hone, beq_self_eq_true, check_true, Memory.delete_of_live ht, hsizes, bind, Except.bind,
    pure, Except.pure]
  rfl

/-- `cancelInLoop` of any other id only takes a note, and only during a batch. -/
theorem cancelInLoop_of_not_active (c : q.Consistent batch) {id : TimerId}
    (hn : id.toActive ∉ q.activeTimers) :
    q.cancelInLoop id = .ok (if q.callingExpiredTimers
      then { q with cancelingTimers := (q.cancelingTimers.insert id.toActive).1 } else q) := by
  simp only [cancelInLoop, c.check_sizes, hn, if_false, bind, Except.bind, pure, Except.pure]
  split <;> rfl

/-! ## getExpired -/

/-- The loop of `getExpired` finds each of its timers once. -/
theorem eraseActive_eq (mem : Memory) (expired : List Entry) (active : OrderedSet ActiveTimer)
    (hlive : ∀ it ∈ expired, ∃ t, mem.timerAt it.timer = some t ∧
      (⟨it.timer, t.sequence⟩ : ActiveTimer) ∈ active)
    (hseq : ∀ p n t, (⟨p, n⟩ : ActiveTimer) ∈ active → mem.timerAt p = some t → n = t.sequence)
    (hnd : (expired.map Entry.timer).Nodup) :
    ∃ active', eraseActive mem active expired = .ok active' ∧
      ∀ a, a ∈ active' ↔ a ∈ active ∧ ∀ it ∈ expired, it.timer ≠ a.timer := by
  induction expired generalizing active with
  | nil => exact ⟨active, rfl, by simp⟩
  | cons it expired ih =>
    obtain ⟨hnotin, hnd⟩ := List.nodup_cons.mp hnd
    obtain ⟨t, ht, ha⟩ := hlive it (by simp)
    obtain ⟨active', heq, hmem⟩ := ih (active.erase ⟨it.timer, t.sequence⟩).1
      (fun jt hjt => by
        obtain ⟨u, hu, hua⟩ := hlive jt (by simp [hjt])
        refine ⟨u, hu, OrderedSet.mem_erase.mpr ⟨fun h => hnotin ?_, hua⟩⟩
        rw [show it.timer = jt.timer from (congrArg ActiveTimer.timer h).symm]
        exact List.mem_map_of_mem hjt)
      (fun r n u hr hu => hseq r n u (OrderedSet.mem_erase.mp hr).2 hu) hnd
    refine ⟨active', ?_, fun a => ?_⟩
    · simp only [eraseActive, Memory.deref_of_live ht, OrderedSet.erase_snd ha, beq_self_eq_true,
        check_true, bind, Except.bind]
      exact heq
    · rw [hmem, OrderedSet.mem_erase, List.forall_mem_cons]
      have hself : a ∈ active → (a ≠ ⟨it.timer, t.sequence⟩ ↔ it.timer ≠ a.timer) := by
        intro hain
        refine not_congr ⟨fun h => by rw [h], fun h => ?_⟩
        obtain ⟨r, n⟩ := a
        simp only at h
        subst h
        rw [hseq _ n t hain ht]
      tauto

/-- The entries that `getExpired now` moves out. -/
def expired (q : TimerQueue) (now : Timestamp) : List Entry :=
  q.timers.toList.filter (·.expiration ≤ now)

theorem mem_expired {now : Timestamp} :
    it ∈ q.expired now ↔ it ∈ q.timers ∧ it.expiration ≤ now := by
  simp [expired]

theorem expired_sorted (q : TimerQueue) (now : Timestamp) : (q.expired now).Pairwise (· < ·) :=
  q.timers.sorted.sublist List.filter_sublist

/-- No Timer lives at `UINTPTR_MAX`, so the sentry separates the due entries from the others. -/
theorem Consistent.lt_sentry_iff (c : q.Consistent batch) (he : it ∈ q.timers) (now : Timestamp) :
    it < ⟨now, uintptrMax⟩ ↔ it.expiration ≤ now := by
  obtain ⟨t, ht, -, -⟩ := (c.timers_iff it.expiration it.timer).mp he
  have hp := (q.mem.placed ht).2
  rw [Entry.lt_iff, le_iff_lt_or_eq]
  simp [hp]

theorem Consistent.toList_lowerBound_fst (c : q.Consistent batch) (now : Timestamp) :
    (q.timers.lowerBound ⟨now, uintptrMax⟩).1.toList = q.expired now := by
  rw [OrderedSet.toList_lowerBound_fst, expired]
  exact List.filter_congr fun e he => by simpa using c.lt_sentry_iff he now

theorem Consistent.toList_lowerBound_snd (c : q.Consistent batch) (now : Timestamp) :
    (q.timers.lowerBound ⟨now, uintptrMax⟩).2.toList =
      q.timers.toList.filter (now < ·.expiration) := by
  rw [OrderedSet.toList_lowerBound_snd]
  exact List.filter_congr fun e he => by
    rw [decide_eq_decide, ← not_lt, c.lt_sentry_iff he now, not_le]

/-- `timers_` holds a timer under one expiration only. -/
theorem Consistent.timers_nodup (c : q.Consistent batch) :
    (q.timers.toList.map Entry.timer).Nodup := by
  refine List.Nodup.map_on ?_ q.timers.nodup
  rintro ⟨e, p⟩ he ⟨e', p'⟩ he' rfl
  obtain ⟨t, ht, rfl, -⟩ := (c.timers_iff _ _).mp he
  obtain ⟨u, hu, rfl, -⟩ := (c.timers_iff _ _).mp he'
  cases ht.symm.trans hu
  rfl

/-- `getExpired` moves the due timers out of both sets. -/
theorem getExpired_eq (c : q.Consistent []) (now : Timestamp) :
    ∃ q', q.getExpired now = .ok (q.expired now, q') ∧ q'.Consistent (q.expired now) ∧
      q'.timers.toList = q.timers.toList.filter (now < ·.expiration) ∧
      q' = { q with timers := q'.timers, activeTimers := q'.activeTimers } := by
  have hlive : ∀ it ∈ q.expired now, ∃ t, q.mem.timerAt it.timer = some t ∧
      t.expiration = it.expiration ∧ (⟨it.timer, t.sequence⟩ : ActiveTimer) ∈ q.activeTimers :=
    fun it hit => (c.timers_iff it.expiration it.timer).mp (mem_expired.mp hit).1
  have hnd : ((q.expired now).map Entry.timer).Nodup :=
    c.timers_nodup.sublist (List.filter_sublist.map _)
  obtain ⟨active', heq, hmem⟩ := eraseActive_eq q.mem (q.expired now) q.activeTimers
    (fun it hit => by
      obtain ⟨t, ht, -, ha⟩ := hlive it hit
      exact ⟨t, ht, ha⟩)
    (fun p n t ha ht => c.sequence_eq ht ha) hnd
  let q' := { q with
    timers := (q.timers.lowerBound ⟨now, uintptrMax⟩).2
    activeTimers := active' }
  have hlate : ∀ e, e ∈ q'.timers ↔ e ∈ q.timers ∧ now < e.expiration := by
    intro e
    rw [← OrderedSet.mem_toList, c.toList_lowerBound_snd now]
    simp
  have hc : q'.Consistent (q.expired now) := by
    refine ⟨fun e p => ?_, fun p n ha => ?_, fun it hit => ?_, hnd⟩
    · rw [hlate, c.timers_iff]
      simp only [q', hmem]
      constructor
      · rintro ⟨⟨t, ht, rfl, ha⟩, hlt⟩
        refine ⟨t, ht, rfl, ha, fun it hit heq => ?_⟩
        obtain ⟨u, hu, hexp, -⟩ := hlive it hit
        rw [show it.timer = p from heq, ht] at hu
        cases hu
        exact absurd (mem_expired.mp hit).2 (not_le.mpr (hexp ▸ hlt))
      · rintro ⟨t, ht, rfl, ha, hout⟩
        refine ⟨⟨t, ht, rfl, ha⟩, not_le.mp fun hle => ?_⟩
        exact hout ⟨t.expiration, p⟩ (mem_expired.mpr ⟨c.queued ht ha, hle⟩) rfl
    · exact c.active_live p n ((hmem _).mp ha).1
    · obtain ⟨t, ht, hexp, -⟩ := hlive it hit
      exact ⟨t, ht, hexp, fun ha => ((hmem _).mp ha).2 it hit rfl⟩
  refine ⟨q', ?_, hc, c.toList_lowerBound_snd now, rfl⟩
  have hfirst : (q.timers.lowerBound ⟨now, uintptrMax⟩).2.first?.all (now < ·.expiration) := by
    rw [Option.all_eq_true]
    intro it hit
    simpa using ((hlate it).mp (OrderedSet.first?_eq_some hit).1).2
  simp only [getExpired, c.check_sizes, c.toList_lowerBound_fst, heq, hfirst, check_true,
    hc.check_sizes, bind, Except.bind, pure, Except.pure, q']

/-! ## reset -/

/-- The heap may change at a timer of the batch, which then leaves the batch. -/
theorem Consistent.setMem (c : q.Consistent (it :: rest)) {mem : Memory}
    (hother : ∀ p, p ≠ it.timer → mem.timerAt p = q.mem.timerAt p) :
    ({ q with mem := mem } : TimerQueue).Consistent rest := by
  have hin := c.batch_inactive (List.mem_cons_self ..)
  obtain ⟨hnotin, hnd⟩ := List.nodup_cons.mp c.batch_nodup
  refine ⟨fun e p => ?_, fun p n ha => ?_, fun jt hjt => ?_, hnd⟩
  · by_cases hp : p = it.timer
    · subst hp
      obtain ⟨t, ht, -, hn⟩ := c.batch_live it (List.mem_cons_self ..)
      exact iff_of_false (c.not_queued ht hn e) fun ⟨u, _, _, ha⟩ => hin _ ha
    · simpa only [hother p hp] using c.timers_iff e p
  · have hp : p ≠ it.timer := by
      rintro rfl
      exact hin n ha
    simpa only [hother p hp] using c.active_live p n ha
  · have hp : jt.timer ≠ it.timer := fun h => hnotin (h ▸ List.mem_map_of_mem hjt)
    simpa only [hother _ hp] using c.batch_live jt (List.mem_cons_of_mem _ hjt)

/-- The timer `t` of the batch entry `it` repeats and has not been cancelled. -/
def Kept (q : TimerQueue) (it : Entry) (t : Timer) : Prop :=
  t.repeats = true ∧ (⟨it.timer, t.sequence⟩ : ActiveTimer) ∉ q.cancelingTimers

instance (q : TimerQueue) (it : Entry) (t : Timer) : Decidable (q.Kept it t) :=
  inferInstanceAs (Decidable (_ ∧ _))

/-- What `reset` does with a batch: the kept timers are restarted and queued
again, the others are deleted, all other timers are left alone. -/
structure ResetTo (now : Timestamp) (batch : List Entry) (q q' : TimerQueue) : Prop where
  consistent : q'.Consistent []
  calling : q'.callingExpiredTimers = q.callingExpiredTimers
  canceling : q'.cancelingTimers = q.cancelingTimers
  alarm : q'.alarm = q.alarm
  numCreated : q'.mem.numCreated = q.mem.numCreated
  other : ∀ p, (∀ it ∈ batch, it.timer ≠ p) →
    q'.mem.timerAt p = q.mem.timerAt p ∧
      ∀ n, (⟨p, n⟩ : ActiveTimer) ∈ q'.activeTimers ↔ (⟨p, n⟩ : ActiveTimer) ∈ q.activeTimers
  kept : ∀ it ∈ batch, ∀ t, q.mem.timerAt it.timer = some t → q.Kept it t →
    q'.mem.timerAt it.timer = some (t.restart now) ∧
      (⟨it.timer, t.sequence⟩ : ActiveTimer) ∈ q'.activeTimers
  dropped : ∀ it ∈ batch, ∀ t, q.mem.timerAt it.timer = some t → ¬ q.Kept it t →
    q'.mem.timerAt it.timer = none
  deleted : ∀ n, n ∈ q'.mem.deleted ↔ n ∈ q.mem.deleted ∨
    ∃ it ∈ batch, ∃ t, q.mem.timerAt it.timer = some t ∧ ¬ q.Kept it t ∧ t.sequence = n

/-- The queue after one pass of the loop in `reset`. -/
def resetOne (q : TimerQueue) (now : Timestamp) (it : Entry) (t : Timer)
    (ht : q.mem.timerAt it.timer = some t) : TimerQueue :=
  if q.Kept it t then
    ({ q with mem := q.mem.restarted it.timer t ht now } : TimerQueue).inserted it.timer
      (t.restart now)
  else { q with mem := q.mem.released it.timer t ht }

section ResetOne

variable (now : Timestamp) (ht : q.mem.timerAt it.timer = some t)

theorem resetOne_kept (hk : q.Kept it t) : q.resetOne now it t ht =
    ({ q with mem := q.mem.restarted it.timer t ht now } : TimerQueue).inserted it.timer
      (t.restart now) := if_pos hk

theorem resetOne_dropped (hk : ¬ q.Kept it t) :
    q.resetOne now it t ht = { q with mem := q.mem.released it.timer t ht } := if_neg hk

theorem Consistent.resetOne (c : q.Consistent (it :: rest)) :
    (q.resetOne now it t ht).Consistent rest := by
  by_cases hk : q.Kept it t
  · rw [resetOne_kept now ht hk]
    have c' := c.setMem fun p hp => Memory.restarted_timerAt_of_ne ht now hp
    refine c'.inserted (Memory.restarted_timerAt_self ht now) (List.Sublist.refl _) ?_
    intro jt hjt heq
    exact (List.nodup_cons.mp c.batch_nodup).1 (heq ▸ List.mem_map_of_mem hjt)
  · rw [resetOne_dropped now ht hk]
    exact c.setMem fun p hp => Memory.released_timerAt_of_ne ht hp

theorem resetEach_cons (c : q.Consistent (it :: rest)) :
    resetEach now (it :: rest) q = resetEach now rest (q.resetOne now it t ht) := by
  rw [resetEach, Memory.deref_of_live ht]
  by_cases hk : q.Kept it t
  · have c' := c.setMem fun p hp => Memory.restarted_timerAt_of_ne ht now hp
    have hins := insert_eq c' (Memory.restarted_timerAt_self ht now)
      (by rw [Timer.restart_sequence]; exact c.batch_inactive (List.mem_cons_self ..) _)
    simp only [Kept] at hk
    simp only [bind, Except.bind, hk, not_false_eq_true, and_self, if_true,
      Memory.restart_of_live ht, hins, resetOne_kept now ht hk]
  · rw [resetOne_dropped now ht hk]
    simp only [Kept] at hk
    simp only [bind, Except.bind, hk, if_false, Memory.delete_of_live ht]

theorem resetOne_other {p : Ptr} (hp : p ≠ it.timer) :
    (q.resetOne now it t ht).mem.timerAt p = q.mem.timerAt p ∧
      ∀ n, (⟨p, n⟩ : ActiveTimer) ∈ (q.resetOne now it t ht).activeTimers ↔
        (⟨p, n⟩ : ActiveTimer) ∈ q.activeTimers := by
  by_cases hk : q.Kept it t
  · rw [resetOne_kept now ht hk]
    refine ⟨Memory.restarted_timerAt_of_ne ht now hp, fun n => ?_⟩
    rw [mem_inserted_active]
    exact or_iff_right fun h => hp (congrArg ActiveTimer.timer h)
  · rw [resetOne_dropped now ht hk]
    exact ⟨Memory.released_timerAt_of_ne ht hp, fun n => Iff.rfl⟩

theorem resetOne_deleted (n : ℤ) : n ∈ (q.resetOne now it t ht).mem.deleted ↔
    n ∈ q.mem.deleted ∨ ¬ q.Kept it t ∧ t.sequence = n := by
  by_cases hk : q.Kept it t
  · rw [resetOne_kept now ht hk]
    simp [hk, Memory.restarted]
  · rw [resetOne_dropped now ht hk]
    simp [hk, Memory.released, or_comm, eq_comm]

theorem resetOne_frame : (q.resetOne now it t ht).callingExpiredTimers = q.callingExpiredTimers ∧
    (q.resetOne now it t ht).cancelingTimers = q.cancelingTimers ∧
    (q.resetOne now it t ht).alarm = q.alarm ∧
    (q.resetOne now it t ht).mem.numCreated = q.mem.numCreated := by
  unfold TimerQueue.resetOne
  split <;> exact ⟨rfl, rfl, rfl, rfl⟩

end ResetOne

/-- The loop of `reset` succeeds on a consistent queue. -/
theorem resetEach_eq (now : Timestamp) (batch : List Entry) (q : TimerQueue)
    (c : q.Consistent batch) :
    ∃ q', resetEach now batch q = .ok q' ∧ q.ResetTo now batch q' := by
  induction batch generalizing q with
  | nil =>
    exact ⟨q, rfl, c, rfl, rfl, rfl, rfl, fun p _ => ⟨rfl, fun _ => Iff.rfl⟩, by simp, by simp,
      by simp⟩
  | cons it rest ih =>
    obtain ⟨t, ht, -, -⟩ := c.batch_live it (List.mem_cons_self ..)
    obtain ⟨q', heq, h⟩ := ih _ (c.resetOne now ht)
    obtain ⟨hcalling, hcanceling, halarm, hnum⟩ := resetOne_frame now ht
    have hnotin : ∀ jt ∈ rest, jt.timer ≠ it.timer := fun jt hjt heq =>
      (List.nodup_cons.mp c.batch_nodup).1 (heq ▸ List.mem_map_of_mem hjt)
    -- the loop treats the rest of the batch as if it had not touched `it`
    have hmem : ∀ jt ∈ rest, (q.resetOne now it t ht).mem.timerAt jt.timer =
        q.mem.timerAt jt.timer := fun jt hjt => (resetOne_other now ht (hnotin jt hjt)).1
    have hkept : ∀ jt u, (q.resetOne now it t ht).Kept jt u ↔ q.Kept jt u := fun jt u => by
      rw [Kept, Kept, hcanceling]
    have hself := h.other it.timer hnotin
    refine ⟨q', by rw [resetEach_cons now ht c, heq], h.consistent, h.calling.trans hcalling,
      h.canceling.trans hcanceling, h.alarm.trans halarm, h.numCreated.trans hnum,
      fun p hp => ?_, fun jt hjt u hu hk => ?_, fun jt hjt u hu hk => ?_, fun n => ?_⟩
    · obtain ⟨hpit, hprest⟩ := List.forall_mem_cons.mp hp
      obtain ⟨h1, h2⟩ := resetOne_other now ht (Ne.symm hpit)
      obtain ⟨h3, h4⟩ := h.other p hprest
      exact ⟨h3.trans h1, fun n => (h4 n).trans (h2 n)⟩
    · rcases List.mem_cons.mp hjt with rfl | hjt
      · cases ht.symm.trans hu
        rw [hself.1, hself.2, resetOne_kept now ht hk]
        exact ⟨Memory.restarted_timerAt_self ht now,
          mem_inserted_active.mpr (.inl (by rw [Timer.restart_sequence]))⟩
      · exact h.kept jt hjt u ((hmem jt hjt).trans hu) ((hkept jt u).mpr hk)
    · rcases List.mem_cons.mp hjt with rfl | hjt
      · cases ht.symm.trans hu
        rw [hself.1, resetOne_dropped now ht hk]
        exact Memory.released_timerAt_self ht
      · exact h.dropped jt hjt u ((hmem jt hjt).trans hu) fun hk' => hk ((hkept jt u).mp hk')
    · rw [h.deleted, resetOne_deleted now ht, or_assoc, List.exists_mem_cons_iff]
      refine or_congr_right (or_congr ⟨fun hk => ⟨t, ht, hk⟩, ?_⟩ ?_)
      · rintro ⟨u, hu, hk⟩
        cases ht.symm.trans hu
        exact hk
      · refine exists_congr fun jt => and_congr_right fun hjt => exists_congr fun u => ?_
        rw [hmem jt hjt, hkept]

/-- After `reset` the queued timers are those from before and the kept ones,
due one interval after the time of the batch. -/
theorem ResetTo.mem_timers {now : Timestamp} {q' : TimerQueue} (c : q.Consistent batch)
    (hr : ResetTo now batch q q') {e : Entry} :
    e ∈ q'.timers ↔ e ∈ q.timers ∨ ∃ it ∈ batch, ∃ t, q.mem.timerAt it.timer = some t ∧
      q.Kept it t ∧ e = ⟨addTime now t.interval, it.timer⟩ := by
  obtain ⟨x, p⟩ := e
  constructor
  · intro he
    obtain ⟨u, hu, rfl, ha⟩ := (hr.consistent.timers_iff x p).mp he
    by_cases hp : ∀ it ∈ batch, it.timer ≠ p
    · obtain ⟨hmem, hactive⟩ := hr.other p hp
      exact .inl (c.queued (hmem ▸ hu) ((hactive _).mp ha))
    · obtain ⟨it, hit, rfl⟩ : ∃ it ∈ batch, it.timer = p := by simpa using hp
      obtain ⟨t, ht, -, -⟩ := c.batch_live it hit
      by_cases hk : q.Kept it t
      · cases hu.symm.trans (hr.kept it hit t ht hk).1
        exact .inr ⟨it, hit, t, ht, hk, by rw [Timer.restart_expiration hk.1]⟩
      · cases hu.symm.trans (hr.dropped it hit t ht hk)
  · rintro (he | ⟨it, hit, t, ht, hk, he⟩)
    · obtain ⟨t, ht, rfl, ha⟩ := (c.timers_iff x p).mp he
      have hp : ∀ it ∈ batch, it.timer ≠ p := by
        rintro it hit rfl
        exact c.batch_inactive hit _ ha
      obtain ⟨hmem, hactive⟩ := hr.other p hp
      exact hr.consistent.queued (hmem.trans ht) ((hactive _).mpr ha)
    · obtain ⟨hlive, ha⟩ := hr.kept it hit t ht hk
      have hq := hr.consistent.queued hlive (by rwa [Timer.restart_sequence])
      rwa [Timer.restart_expiration hk.1, ← he] at hq

/-- The time `reset` passes on to `resetTimerfd`, if it is valid. -/
def nextExpire (q : TimerQueue) : Timestamp :=
  (q.timers.first?.map Entry.expiration).getD Timestamp.invalid

theorem firstExpiration_eq (c : q.Consistent batch) : q.firstExpiration = .ok q.nextExpire := by
  unfold firstExpiration nextExpire
  cases hf : q.timers.first? with
  | none => rfl
  | some it =>
    obtain ⟨t, ht, hexp, -⟩ := (c.timers_iff it.expiration it.timer).mp
      (OrderedSet.first?_eq_some hf).1
    simp only [Memory.deref_of_live ht, Functor.map, Except.map, hexp, Option.map_some,
      Option.getD_some]

/-- `endHandleRead` succeeds on a consistent queue. -/
theorem endHandleRead_eq (c : q.Consistent batch) (now clock : Timestamp) :
    ∃ q', ResetTo now batch { q with callingExpiredTimers := false } q' ∧
      q.endHandleRead batch now clock = .ok (if q'.nextExpire.valid
        then q'.resetTimerfd q'.nextExpire clock else q') := by
  obtain ⟨q', heq, h⟩ := resetEach_eq now batch { q with callingExpiredTimers := false }
    (c.congr rfl rfl rfl)
  refine ⟨q', h, ?_⟩
  simp only [endHandleRead, reset, heq, firstExpiration_eq h.consistent, bind, Except.bind, pure,
    Except.pure]
  split <;> rfl

end

end TimerQueue

end Dxian
