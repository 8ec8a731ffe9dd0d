import Dxian.Lib.Transition
import Dxian.Net.TimerQueue.Consistency

/-!
# The timer queue on its loop thread

The loop thread calls `addTimerInLoop`, `cancelInLoop` and `handleRead`, and the
callbacks that `handleRead` runs call the first two again. `Step` is this
program one call at a time: a state between two callbacks of a batch is a state
like any other, with the batch in its `Phase`.

`Effect` says what a step does to a state that satisfies `Invariant`; the proofs
about runs split on `Effect` and never look into the member functions.
-/

namespace Dxian

open Transition

namespace TimerQueue

/-- Where the loop thread is in `handleRead`: outside, or among the callbacks of
a batch, with the entries whose callback has been started and the rest. -/
inductive Phase
  | idle
  | calling (now : Timestamp) (done rest : List Entry)

namespace Phase

/-- The local variable `expired` of `handleRead`. -/
def batch : Phase → List Entry
  | idle => []
  | calling _ done rest => done ++ rest

/-- The entries whose callback has been started. -/
def started : Phase → List Entry
  | idle => []
  | calling _ done _ => done

/-- The entries whose callback is still to be started. -/
def pending : Phase → List Entry
  | idle => []
  | calling _ _ rest => rest

theorem batch_eq (φ : Phase) : φ.batch = φ.started ++ φ.pending := by
  cases φ <;> rfl

/-- The clock reading of the `handleRead` in progress. -/
def time : Phase → Option Timestamp
  | idle => none
  | calling now _ _ => some now

def isCalling : Phase → Bool
  | idle => false
  | calling .. => true

theorem eq_idle {φ : Phase} (h : φ.isCalling = false) : φ = .idle := by
  cases φ with
  | idle => rfl
  | calling => cases h

/-- Code outside the queue is running on the loop thread: a caller of the queue,
or a callback that `handleRead` has started. -/
def Outside : Phase → Prop
  | idle => True
  | calling _ done _ => done ≠ []

instance : DecidablePred Outside
  | idle => inferInstanceAs (Decidable True)
  | calling .. => inferInstanceAs (Decidable (_ ≠ _))

end Phase

/-- A queue at work. `handed` records every Timer given to `addTimerInLoop`. -/
structure State where
  queue : TimerQueue
  phase : Phase
  handed : List ActiveTimer

/-- The calls on the loop thread, and the `new Timer` of any thread. `run` starts
the callback of a Timer, `reset` is the end of `handleRead`. -/
inductive Action
  | newTimer (p : Ptr) (when : Timestamp) (interval : Seconds)
  | addTimerInLoop (timer : ActiveTimer) (clock : Timestamp)
  | cancelInLoop (id : TimerId)
  | handleRead (now : Timestamp)
  | run (timer : ActiveTimer)
  | reset (clock : Timestamp)

/-- The calls that neither begin, continue nor end a batch. -/
def Action.Quiet : Action → Prop
  | newTimer .. | addTimerInLoop .. | cancelInLoop .. => True
  | handleRead .. | run .. | reset .. => False

inductive Step (s : State) : Action → Except Fault State → Prop
  | newTimer {p when interval} (h : s.queue.mem.Free p) :
      Step s (.newTimer p when interval)
        (.ok { s with queue := { s.queue with mem := s.queue.mem.new p when interval h } })
  | addTimerInLoop {p t clock r} (hout : s.phase.Outside)
      (ht : s.queue.mem.timerAt p = some t) (hfresh : ⟨p, t.sequence⟩ ∉ s.handed)
      (hr : (s.queue.addTimerInLoop p clock).map
        (fun q => { s with queue := q, handed := ⟨p, t.sequence⟩ :: s.handed }) = r) :
      Step s (.addTimerInLoop ⟨p, t.sequence⟩ clock) r
  | cancelInLoop {id r} (hout : s.phase.Outside)
      (hr : (s.queue.cancelInLoop id).map (fun q => { s with queue := q }) = r) :
      Step s (.cancelInLoop id) r
  | handleRead {now r} (hidle : s.phase = .idle)
      (hr : (s.queue.beginHandleRead now).map
        (fun x => { s with queue := x.2, phase := .calling now [] x.1 }) = r) :
      Step s (.handleRead now) r
  | run {now done it rest n r} (hphase : s.phase = .calling now done (it :: rest))
      (hn : ∀ m, s.queue.runCallback it = .ok m → m = n)
      (hr : (s.queue.runCallback it).map
        (fun _ => { s with phase := .calling now (done ++ [it]) rest }) = r) :
      Step s (.run ⟨it.timer, n⟩) r
  | reset {now done clock r} (hphase : s.phase = .calling now done [])
      (hr : (s.queue.endHandleRead done now clock).map
        (fun q => { s with queue := q, phase := .idle }) = r) :
      Step s (.reset clock) r

/-- The timer queue of a loop that starts empty, in any heap. -/
def machine : System State Action Fault where
  init s := ∃ mem, s = ⟨empty mem, .idle, []⟩
  step := Step

/-- The successor of a state, where the step is possible and does not fault. -/
def next (s : State) : Action → Option State
  | .newTimer p when interval =>
    if h : s.queue.mem.Free p then
      some { s with queue := { s.queue with mem := s.queue.mem.new p when interval h } }
    else none
  | .addTimerInLoop a clock =>
    if s.phase.Outside ∧ (s.queue.mem.timerAt a.timer).map Timer.sequence = some a.sequence ∧
        a ∉ s.handed then
      (s.queue.addTimerInLoop a.timer clock).toOption.map
        fun q => { s with queue := q, handed := a :: s.handed }
    else none
  | .cancelInLoop id =>
    if s.phase.Outside then
      (s.queue.cancelInLoop id).toOption.map fun q => { s with queue := q }
    else none
  | .handleRead now =>
    match s.phase with
    | .idle => (s.queue.beginHandleRead now).toOption.map
        fun x => { s with queue := x.2, phase := .calling now [] x.1 }
    | .calling .. => none
  | .run a =>
    match s.phase with
    | .calling now done (it :: rest) =>
      if (s.queue.runCallback it).toOption = some a.sequence ∧ it.timer = a.timer then
        some { s with phase := .calling now (done ++ [it]) rest }
      else none
    | _ => none
  | .reset clock =>
    match s.phase with
    | .calling now done [] => (s.queue.endHandleRead done now clock).toOption.map
        fun q => { s with queue := q, phase := .idle }
    | _ => none

theorem step_of_next {s : State} {a : Action} {t : State} (h : next s a = some t) :
    Step s a (.ok t) := by
  cases a with
  | newTimer p when interval =>
    simp only [next] at h
    split at h
    · cases h
      exact .newTimer _
    · cases h
  | addTimerInLoop a clock =>
    simp only [next] at h
    split at h
    · next hc =>
      obtain ⟨hout, hseq, hfresh⟩ := hc
      obtain ⟨p, n⟩ := a
      obtain ⟨t, ht, rfl⟩ := Option.map_eq_some_iff.mp hseq
      exact .addTimerInLoop hout ht hfresh (map_eq_of_toOption h)
    · cases h
  | cancelInLoop id =>
    simp only [next] at h
    split at h
    · next hout => exact .cancelInLoop hout (map_eq_of_toOption h)
    · cases h
  | handleRead now =>
    simp only [next] at h
    split at h
    · next hidle => exact .handleRead hidle (map_eq_of_toOption h)
    · cases h
  | run a =>
    simp only [next] at h
    split at h
    · next now done it rest hphase =>
      split at h
      · next hc =>
        obtain ⟨hrun, htimer⟩ := hc
        cases h
        obtain ⟨p, n⟩ := a
        obtain rfl : it.timer = p := htimer
        cases hcall : s.queue.runCallback it with
        | error e => simp [hcall, Except.toOption] at hrun
        | ok m =>
          obtain rfl : m = n := by simpa [hcall, Except.toOption] using hrun
          refine .run hphase (fun k hk => ?_) (by rw [hcall]; rfl)
          exact (Except.ok.inj (hcall.symm.trans hk)).symm
      · cases h
    · cases h
  | reset clock =>
    simp only [next] at h
    split at h
    · next now done hphase => exact .reset hphase (map_eq_of_toOption h)
    · cases h

namespace State

variable (s : State)

/-- `a` is in both sets. -/
def Queued (a : ActiveTimer) : Prop :=
  a ∈ s.queue.activeTimers ∧ ∃ e, (⟨e, a.timer⟩ : Entry) ∈ s.queue.timers

/-- `a` is in the batch that `handleRead` is processing. -/
def InBatch (a : ActiveTimer) : Prop :=
  ∃ it ∈ s.phase.batch, ∃ t, s.queue.mem.timerAt it.timer = some t ∧
    (⟨it.timer, t.sequence⟩ : ActiveTimer) = a

/-- `a` has been deleted. -/
def Deleted (a : ActiveTimer) : Prop := a.sequence ∈ s.queue.mem.deleted

end State

/-- The invariant of the machine. -/
structure Invariant (s : State) : Prop where
  consistent : s.queue.Consistent s.phase.batch
  calling : s.queue.callingExpiredTimers = s.phase.isCalling
  placed : ∀ a ∈ s.handed, s.Queued a ∨ s.InBatch a ∨ s.Deleted a
  queued_handed : ∀ a ∈ s.queue.activeTimers, a ∈ s.handed
  batch_handed : ∀ a, s.InBatch a → a ∈ s.handed

/-- What a step from a state with `Invariant` does. -/
inductive Effect (s : State) : Action → State → Prop
  | newTimer {p when interval} (h : s.queue.mem.Free p) :
      Effect s (.newTimer p when interval)
        { s with queue := { s.queue with mem := s.queue.mem.new p when interval h } }
  | added {p t clock} (hout : s.phase.Outside) (ht : s.queue.mem.timerAt p = some t)
      (hfresh : ⟨p, t.sequence⟩ ∉ s.handed) :
      Effect s (.addTimerInLoop ⟨p, t.sequence⟩ clock)
        { s with
          queue := if s.queue.earliestChanged t
            then (s.queue.inserted p t).resetTimerfd t.expiration clock else s.queue.inserted p t
          handed := ⟨p, t.sequence⟩ :: s.handed }
  | cancelled {p t} (hout : s.phase.Outside) (ht : s.queue.mem.timerAt p = some t)
      (ha : ⟨p, t.sequence⟩ ∈ s.queue.activeTimers) :
      Effect s (.cancelInLoop ⟨p, t.sequence⟩) { s with queue := s.queue.cancelled p t ht }
  | noted {id} (hn : id.toActive ∉ s.queue.activeTimers) (hcalling : s.phase.isCalling = true) :
      Effect s (.cancelInLoop id) { s with queue :=
        { s.queue with cancelingTimers := (s.queue.cancelingTimers.insert id.toActive).1 } }
  | ignored {id} (hn : id.toActive ∉ s.queue.activeTimers) (hidle : s.phase = .idle) :
      Effect s (.cancelInLoop id) s
  | handleRead {now} {q' : TimerQueue} (hidle : s.phase = .idle)
      (hc : q'.Consistent (s.queue.expired now))
      (hlate : q'.timers.toList = s.queue.timers.toList.filter (now < ·.expiration))
      (hq : q' = { s.queue with
        timers := q'.timers, activeTimers := q'.activeTimers, alarm := none }) :
      Effect s (.handleRead now) { s with
        queue := { q' with callingExpiredTimers := true, cancelingTimers := ∅ }
        phase := .calling now [] (s.queue.expired now) }
  | run {now done it rest t} (hphase : s.phase = .calling now done (it :: rest))
      (ht : s.queue.mem.timerAt it.timer = some t) :
      Effect s (.run ⟨it.timer, t.sequence⟩)
        { s with phase := .calling now (done ++ [it]) rest }
  | reset {now done clock} {q' : TimerQueue} (hphase : s.phase = .calling now done [])
      (hr : ResetTo now done { s.queue with callingExpiredTimers := false } q') :
      Effect s (.reset clock) { s with
        queue := if q'.nextExpire.valid then q'.resetTimerfd q'.nextExpire clock else q'
        phase := .idle }

/-- A Timer that has never been handed over is in neither set. -/
theorem Invariant.not_active_of_fresh {s : State} (inv : Invariant s) {a : ActiveTimer}
    (h : a ∉ s.handed) : a ∉ s.queue.activeTimers := fun ha => h (inv.queued_handed a ha)

/-- Steps from a state with `Invariant` do not fault. -/
theorem Step.effect {s : State} {a : Action} {r : Except Fault State} (inv : Invariant s)
    (h : Step s a r) : ∃ t, r = .ok t ∧ Effect s a t := by
  have c := inv.consistent
  cases h with
  | newTimer h => exact ⟨_, rfl, .newTimer h⟩
  | @addTimerInLoop p t clock _ hout ht hfresh hr =>
    rw [addTimerInLoop_eq c ht (inv.not_active_of_fresh hfresh) clock] at hr
    exact ⟨_, hr.symm, .added hout ht hfresh⟩
  | @cancelInLoop id _ hout hr =>
    by_cases ha : id.toActive ∈ s.queue.activeTimers
    · obtain ⟨t, ht, hseq⟩ := c.active_live id.timer id.sequence ha
      obtain ⟨p, n⟩ := id
      simp only at hseq ht
      subst hseq
      rw [cancelInLoop_of_active c ht ha] at hr
      exact ⟨_, hr.symm, .cancelled hout ht ha⟩
    · rw [cancelInLoop_of_not_active c ha] at hr
      have hcalling := inv.calling
      cases hflag : s.queue.callingExpiredTimers with
      | false =>
        rw [if_neg (by simp [hflag])] at hr
        exact ⟨s, hr.symm, .ignored ha (Phase.eq_idle (hcalling.symm.trans hflag))⟩
      | true =>
        rw [if_pos hflag] at hr
        exact ⟨_, hr.symm, .noted ha (hcalling.symm.trans hflag)⟩
  | @handleRead now _ hidle hr =>
    rw [hidle] at c
    obtain ⟨q', heq, hc, hlate, hq⟩ := getExpired_eq
      (c.congr rfl rfl rfl : s.queue.readTimerfd.Consistent []) now
    simp only [beginHandleRead, heq, bind, Except.bind, pure, Except.pure, Except.map] at hr
    exact ⟨_, hr.symm, .handleRead hidle hc hlate hq⟩
  | @run now done it rest n _ hphase hn hr =>
    rw [hphase] at c
    obtain ⟨t, ht, -, -⟩ := c.batch_live it (by simp [Phase.batch])
    have hrun : s.queue.runCallback it = .ok t.sequence := by
      simp [runCallback, Memory.deref_of_live ht, bind, Except.bind, pure, Except.pure]
    obtain rfl := hn _ hrun
    rw [hrun] at hr
    exact ⟨_, hr.symm, .run hphase ht⟩
  | @reset now done clock _ hphase hr =>
    rw [hphase, Phase.batch, List.append_nil] at c
    obtain ⟨q', hreset, heq⟩ := endHandleRead_eq c now clock
    rw [heq] at hr
    exact ⟨_, hr.symm, .reset hphase hreset⟩

/-! ## The invariant is kept -/

/-- Every active timer is also in `timers_`. -/
theorem Consistent.exists_entry {q : TimerQueue} {batch : List Entry} (c : q.Consistent batch)
    {a : ActiveTimer} (ha : a ∈ q.activeTimers) : ∃ e, (⟨e, a.timer⟩ : Entry) ∈ q.timers := by
  obtain ⟨t, ht, hseq⟩ := c.active_live a.timer a.sequence ha
  exact ⟨t.expiration, c.queued ht (hseq ▸ ha)⟩

/-- Allocation concerns neither the sets nor the batch. -/
theorem Consistent.new {q : TimerQueue} {batch : List Entry} (c : q.Consistent batch) {p : Ptr}
    {when : Timestamp} {interval : Seconds} (h : q.mem.Free p) :
    ({ q with mem := q.mem.new p when interval h } : TimerQueue).Consistent batch where
  timers_iff e r := by
    rw [c.timers_iff]
    constructor
    · rintro ⟨t, ht, he, ha⟩
      exact ⟨t, Memory.new_timerAt_of_live h ht, he, ha⟩
    · rintro ⟨t, ht, he, ha⟩
      obtain ⟨u, hu, -⟩ := c.active_live r _ ha
      cases (Memory.new_timerAt_of_live h hu).symm.trans ht
      exact ⟨t, hu, he, ha⟩
  active_live r n ha := by
    obtain ⟨t, ht, hseq⟩ := c.active_live r n ha
    exact ⟨t, Memory.new_timerAt_of_live h ht, hseq⟩
  batch_live it hit := by
    obtain ⟨t, ht, hexp, hn⟩ := c.batch_live it hit
    exact ⟨t, Memory.new_timerAt_of_live h ht, hexp, hn⟩
  batch_nodup := c.batch_nodup

/-- The batch of a state is read off its entries and the heap at their addresses. -/
theorem State.inBatch_congr {s t : State} (hbatch : t.phase.batch = s.phase.batch)
    (hmem : ∀ it ∈ s.phase.batch,
      t.queue.mem.timerAt it.timer = s.queue.mem.timerAt it.timer) (a : ActiveTimer) :
    t.InBatch a ↔ s.InBatch a := by
  unfold State.InBatch
  rw [hbatch]
  exact exists_congr fun it => and_congr_right fun hit => by rw [hmem it hit]

theorem invariant_init (mem : Memory) : Invariant ⟨empty mem, .idle, []⟩ where
  consistent := consistent_empty mem
  calling := rfl
  placed a ha := by simp at ha
  queued_handed a ha := by simp [empty] at ha
  batch_handed a ha := by simp [State.InBatch, Phase.batch] at ha

section Preservation

variable {s : State} (inv : Invariant s)
include inv

theorem Invariant.new {p : Ptr} {when : Timestamp} {interval : Seconds}
    (h : s.queue.mem.Free p) : Invariant { s with
      queue := { s.queue with mem := s.queue.mem.new p when interval h } } := by
  have hb := State.inBatch_congr (s := s) (t := { s with
      queue := { s.queue with mem := s.queue.mem.new p when interval h } }) rfl fun it hit => by
    obtain ⟨t, ht, -, -⟩ := inv.consistent.batch_live it hit
    exact (Memory.new_timerAt_of_live h ht).trans ht.symm
  exact ⟨inv.consistent.new h, inv.calling, fun a ha => (inv.placed a ha).imp_right
    (Or.imp_left (hb a).mpr), inv.queued_handed, fun a ha => inv.batch_handed a ((hb a).mp ha)⟩

theorem Invariant.added {p : Ptr} {t : Timer} {q : TimerQueue}
    (ht : s.queue.mem.timerAt p = some t) (hfresh : ⟨p, t.sequence⟩ ∉ s.handed)
    (hq : q = { s.queue.inserted p t with alarm := q.alarm }) :
    Invariant { s with queue := q, handed := ⟨p, t.sequence⟩ :: s.handed } := by
  have hout : ∀ it ∈ s.phase.batch, it.timer ≠ p := by
    rintro it hit rfl
    exact hfresh (inv.batch_handed _ ⟨it, hit, t, ht, rfl⟩)
  have c : q.Consistent s.phase.batch :=
    (inv.consistent.inserted ht (List.Sublist.refl _) hout).congr
      (by rw [hq]) (by rw [hq]) (by rw [hq])
  have hactive : ∀ a, a ∈ q.activeTimers ↔ a = ⟨p, t.sequence⟩ ∨ a ∈ s.queue.activeTimers := by
    intro a
    rw [hq]
    exact mem_inserted_active
  have hmem : q.mem = s.queue.mem := by rw [hq]; rfl
  have hb := State.inBatch_congr (s := s)
    (t := { s with queue := q, handed := ⟨p, t.sequence⟩ :: s.handed }) rfl
    fun it _ => by rw [hmem]
  refine ⟨c, by rw [hq]; exact inv.calling, fun a ha => ?_, fun a ha => ?_, fun a ha => ?_⟩
  · rcases List.mem_cons.mp ha with rfl | ha
    · have h := (hactive ⟨p, t.sequence⟩).mpr (.inl rfl)
      exact .inl ⟨h, c.exists_entry h⟩
    · refine (inv.placed a ha).imp (fun h => ?_) (Or.imp (hb a).mpr fun h => ?_)
      · have h := (hactive a).mpr (.inr h.1)
        exact ⟨h, c.exists_entry h⟩
      · rw [State.Deleted, hmem]
        exact h
  · rcases (hactive a).mp ha with rfl | ha
    · exact List.mem_cons_self ..
    · exact List.mem_cons_of_mem _ (inv.queued_handed a ha)
  · exact List.mem_cons_of_mem _ (inv.batch_handed a ((hb a).mp ha))

theorem Invariant.cancelled {p : Ptr} {t : Timer} (ht : s.queue.mem.timerAt p = some t)
    (ha : ⟨p, t.sequence⟩ ∈ s.queue.activeTimers) :
    Invariant { s with queue := s.queue.cancelled p t ht } := by
  have c := inv.consistent.cancelled ht ha
  have hb := State.inBatch_congr (s := s) (t := { s with queue := s.queue.cancelled p t ht }) rfl
    fun it hit => Memory.released_timerAt_of_ne ht fun heq =>
      inv.consistent.batch_inactive hit t.sequence (heq ▸ ha)
  refine ⟨c, inv.calling, fun b hb' => ?_, fun b hb' => ?_,
    fun b hb' => inv.batch_handed b ((hb b).mp hb')⟩
  · rcases inv.placed b hb' with hq | hin | hdel
    · by_cases heq : b = ⟨p, t.sequence⟩
      · exact .inr (.inr (by simp [State.Deleted, TimerQueue.cancelled, Memory.released, heq]))
      · have h : b ∈ (s.queue.cancelled p t ht).activeTimers :=
          OrderedSet.mem_erase.mpr ⟨heq, hq.1⟩
        exact .inl ⟨h, c.exists_entry h⟩
    · exact .inr (.inl ((hb b).mpr hin))
    · exact .inr (.inr (List.mem_cons_of_mem _ hdel))
  · exact inv.queued_handed b (OrderedSet.mem_erase.mp hb').2

theorem Invariant.handleRead {now : Timestamp} {q' : TimerQueue} (hidle : s.phase = .idle)
    (hc : q'.Consistent (s.queue.expired now))
    (hlate : q'.timers.toList = s.queue.timers.toList.filter (now < ·.expiration))
    (hq : q' = { s.queue with
      timers := q'.timers, activeTimers := q'.activeTimers, alarm := none }) :
    Invariant { s with
      queue := { q' with callingExpiredTimers := true, cancelingTimers := ∅ }
      phase := .calling now [] (s.queue.expired now) } := by
  have c := inv.consistent
  rw [hidle] at c
  have hmem : q'.mem = s.queue.mem := by rw [hq]
  have hnone : ∀ a, ¬ s.InBatch a := by
    intro a
    simp [State.InBatch, hidle, Phase.batch]
  -- an active timer is due and in the batch, or it is late and still queued
  have hsplit : ∀ a ∈ s.queue.activeTimers, a ∈ q'.activeTimers ∨
      ∃ it ∈ s.queue.expired now, ∃ t, s.queue.mem.timerAt it.timer = some t ∧
        (⟨it.timer, t.sequence⟩ : ActiveTimer) = a := by
    rintro ⟨p, n⟩ ha
    obtain ⟨t, ht, rfl⟩ := c.active_live p n ha
    by_cases hle : t.expiration ≤ now
    · exact .inr ⟨⟨t.expiration, p⟩, mem_expired.mpr ⟨c.queued ht ha, hle⟩, t, ht, rfl⟩
    · have hin : (⟨t.expiration, p⟩ : Entry) ∈ q'.timers := by
        rw [← OrderedSet.mem_toList, hlate, List.mem_filter]
        exact ⟨c.queued ht ha, by simpa using hle⟩
      obtain ⟨u, hu, -, hua⟩ := (hc.timers_iff _ p).mp hin
      cases ht.symm.trans (hmem ▸ hu)
      exact .inl hua
  have hback : ∀ a ∈ q'.activeTimers, a ∈ s.queue.activeTimers := by
    rintro ⟨p, n⟩ ha
    obtain ⟨t, ht, rfl⟩ := hc.active_live p n ha
    have hin := hc.queued ht ha
    rw [← OrderedSet.mem_toList, hlate, List.mem_filter] at hin
    obtain ⟨u, hu, -, hua⟩ := (c.timers_iff _ p).mp hin.1
    cases (hmem ▸ ht).symm.trans hu
    exact hua
  refine ⟨hc.congr rfl rfl rfl, rfl, fun a ha => ?_,
    fun a ha => inv.queued_handed a (hback a ha), ?_⟩
  · rcases inv.placed a ha with hqd | hin | hdel
    · rcases hsplit a hqd.1 with h | ⟨it, hit, t, ht, h⟩
      · exact .inl ⟨h, hc.exists_entry h⟩
      · exact .inr (.inl ⟨it, hit, t, by rw [← hmem] at ht; exact ht, h⟩)
    · exact absurd hin (hnone a)
    · exact .inr (.inr (by simpa only [State.Deleted, hmem] using hdel))
  · rintro a ⟨it, hit, t, ht, rfl⟩
    replace ht : s.queue.mem.timerAt it.timer = some t := hmem ▸ ht
    obtain ⟨u, hu, -, hua⟩ := (c.timers_iff it.expiration it.timer).mp (mem_expired.mp hit).1
    cases ht.symm.trans hu
    exact inv.queued_handed _ hua

theorem Invariant.run {now : Timestamp} {done rest : List Entry} {it : Entry}
    (hphase : s.phase = .calling now done (it :: rest)) :
    Invariant { s with phase := .calling now (done ++ [it]) rest } := by
  have hbatch : (Phase.calling now (done ++ [it]) rest).batch = s.phase.batch := by
    simp [hphase, Phase.batch]
  have hb := State.inBatch_congr (s := s)
    (t := { s with phase := .calling now (done ++ [it]) rest }) hbatch fun _ _ => rfl
  refine ⟨?_, by rw [inv.calling, hphase]; rfl,
    fun a ha => (inv.placed a ha).imp_right (Or.imp_left (hb a).mpr), inv.queued_handed,
    fun a ha => inv.batch_handed a ((hb a).mp ha)⟩
  rw [hbatch]
  exact inv.consistent

theorem Invariant.reset {now : Timestamp} {done : List Entry} {q q' : TimerQueue}
    (hphase : s.phase = .calling now done [])
    (hr : ResetTo now done { s.queue with callingExpiredTimers := false } q')
    (hq : q = { q' with alarm := q.alarm }) :
    Invariant { s with queue := q, phase := .idle } := by
  have c := inv.consistent
  have hbatch : s.phase.batch = done := by simp [hphase, Phase.batch]
  rw [hbatch] at c
  have hmem : q.mem = q'.mem := by rw [hq]
  have hactive : q.activeTimers = q'.activeTimers := by rw [hq]
  have hc : q.Consistent [] := hr.consistent.congr (by rw [hq]) (by rw [hq]) (by rw [hq])
  have hqueued : ∀ a ∈ q'.activeTimers,
      State.Queued { s with queue := q, phase := .idle } a := fun a ha =>
    ⟨hactive ▸ ha, hc.exists_entry (hactive ▸ ha)⟩
  refine ⟨hc, by rw [hq]; exact hr.calling, fun a ha => ?_, ?_, ?_⟩
  · rcases inv.placed a ha with hqd | ⟨it, hit, t, ht, rfl⟩ | hdel
    · refine .inl (hqueued a (((hr.other a.timer fun it hit heq => ?_).2 a.sequence).mpr hqd.1))
      exact c.batch_inactive hit a.sequence (heq ▸ hqd.1)
    · rw [hbatch] at hit
      by_cases hk : s.queue.Kept it t
      · exact .inl (hqueued _ (hr.kept it hit t ht hk).2)
      · exact .inr (.inr (by
          rw [State.Deleted, hmem]
          exact (hr.deleted _).mpr (.inr ⟨it, hit, t, ht, hk, rfl⟩)))
    · exact .inr (.inr (by rw [State.Deleted, hmem]; exact (hr.deleted _).mpr (.inl hdel)))
  · rintro ⟨p, n⟩ ha
    replace ha : (⟨p, n⟩ : ActiveTimer) ∈ q'.activeTimers := hactive ▸ ha
    by_cases hp : ∀ it ∈ done, it.timer ≠ p
    · exact inv.queued_handed _ (((hr.other p hp).2 n).mp ha)
    · -- a timer of the batch that is active again was kept
      obtain ⟨it, hit, rfl⟩ : ∃ it ∈ done, it.timer = p := by simpa using hp
      obtain ⟨t, ht, -, -⟩ := c.batch_live it hit
      obtain ⟨u, hu, rfl⟩ := hr.consistent.active_live _ n ha
      by_cases hk : s.queue.Kept it t
      · cases hu.symm.trans (hr.kept it hit t ht hk).1
        rw [Timer.restart_sequence]
        exact inv.batch_handed _ ⟨it, hbatch ▸ hit, t, ht, rfl⟩
      · cases hu.symm.trans (hr.dropped it hit t ht hk)
  · rintro a ⟨it, hit, -⟩
    simp [Phase.batch] at hit

end Preservation

/-- A timer occurs in the batch once. -/
theorem Invariant.started_ne {s : State} (inv : Invariant s) {now : Timestamp}
    {done rest : List Entry} {it jt : Entry} (hphase : s.phase = .calling now done (it :: rest))
    (hjt : jt ∈ done) : jt.timer ≠ it.timer := by
  have hnd := inv.consistent.batch_nodup
  rw [hphase, Phase.batch, List.map_append, List.nodup_append] at hnd
  exact hnd.2.2 jt.timer (List.mem_map_of_mem hjt) it.timer (by simp)

/-- What it takes to start the callback of `a`. -/
theorem Effect.of_run {s t : State} {a : ActiveTimer} (h : Effect s (.run a) t) :
    ∃ now done it rest u, s.phase = .calling now done (it :: rest) ∧
      s.queue.mem.timerAt it.timer = some u ∧ a = ⟨it.timer, u.sequence⟩ ∧
      t = { s with phase := .calling now (done ++ [it]) rest } := by
  cases h with
  | run hphase hu => exact ⟨_, _, _, _, _, hphase, hu, rfl, rfl⟩

/-- `addTimerInLoop` inserts the Timer as it is. -/
theorem Effect.of_add {s t : State} {a : ActiveTimer} {clock : Timestamp}
    (h : Effect s (.addTimerInLoop a clock) t) :
    a ∈ t.queue.activeTimers ∧ t.queue.mem = s.queue.mem := by
  cases h with
  | added hout ht hfresh =>
    dsimp only
    split <;> exact ⟨mem_inserted_active.mpr (.inl rfl), rfl⟩

/-! ## What a step leaves alone -/

section Frame

variable {s t : State} {x : Action}

theorem Effect.phase_of_quiet (h : Effect s x t) (hx : x.Quiet) : t.phase = s.phase := by
  cases h with
  | handleRead | run | reset => exact hx.elim
  | _ => rfl

/-- Until `reset` the Timers of the batch stay as they are. -/
theorem Effect.timerAt_of_batch (h : Effect s x t) (inv : Invariant s)
    (hx : ∀ clock, x ≠ .reset clock) {it : Entry} (hit : it ∈ s.phase.batch) :
    t.queue.mem.timerAt it.timer = s.queue.mem.timerAt it.timer := by
  have c := inv.consistent
  cases h with
  | newTimer h =>
    obtain ⟨u, hu, -, -⟩ := c.batch_live it hit
    exact (Memory.new_timerAt_of_live h hu).trans hu.symm
  | added hout ht hfresh => dsimp only; split <;> rfl
  | @cancelled p u hout ht ha =>
    refine Memory.released_timerAt_of_ne ht ?_
    rintro rfl
    exact c.batch_inactive hit _ ha
  | noted hn hcalling => rfl
  | ignored hn hidle => rfl
  | handleRead hidle hc hlate hq => simp [hidle, Phase.batch] at hit
  | run hphase ht => rfl
  | reset hphase hr => exact absurd rfl (hx _)

/-- The Timers that a call hands over. -/
def Action.handedOver : Action → List ActiveTimer
  | addTimerInLoop a _ => [a]
  | _ => []

theorem Effect.handed_eq (h : Effect s x t) : t.handed = x.handedOver ++ s.handed := by
  cases h <;> rfl

/-- A live Timer that has not been handed over is out of reach of the queue. -/
theorem Effect.timerAt_of_unhanded (h : Effect s x t) (inv : Invariant s) {p : Ptr} {u : Timer}
    (hu : s.queue.mem.timerAt p = some u) (hfresh : (⟨p, u.sequence⟩ : ActiveTimer) ∉ s.handed) :
    t.queue.mem.timerAt p = some u := by
  have hinactive : ∀ n, (⟨p, n⟩ : ActiveTimer) ∉ s.queue.activeTimers := by
    intro n ha
    have hn := inv.consistent.sequence_eq hu ha
    exact hfresh (hn ▸ inv.queued_handed _ ha)
  cases h with
  | newTimer h => exact Memory.new_timerAt_of_live h hu
  | added hout ht hfresh => dsimp only; split <;> exact hu
  | @cancelled r v hout ht ha =>
    refine (Memory.released_timerAt_of_ne ht ?_).trans hu
    rintro rfl
    exact hinactive _ ha
  | noted hn hcalling => exact hu
  | ignored hn hidle => exact hu
  | handleRead hidle hc hlate hq => rw [hq]; exact hu
  | run hphase ht => exact hu
  | @reset now done clock q' hphase hr =>
    have hout : ∀ it ∈ done, it.timer ≠ p := by
      rintro it hit rfl
      have hbatch : it ∈ s.phase.batch := by rw [hphase]; simpa [Phase.batch] using hit
      exact hfresh (inv.batch_handed _ ⟨it, hbatch, u, hu, rfl⟩)
    have hu' : q'.mem.timerAt p = some u := (hr.other p hout).1.trans hu
    dsimp only
    split <;> exact hu'

/-- What has been deleted stays deleted. -/
theorem Effect.deleted_mono (h : Effect s x t) {n : ℤ} (hn : n ∈ s.queue.mem.deleted) :
    n ∈ t.queue.mem.deleted := by
  cases h with
  | newTimer h => exact hn
  | added hout ht hfresh => dsimp only; split <;> exact hn
  | cancelled hout ht ha => exact List.mem_cons_of_mem _ hn
  | noted hn' hcalling => exact hn
  | ignored hn' hidle => exact hn
  | handleRead hidle hc hlate hq => rw [hq]; exact hn
  | run hphase ht => exact hn
  | reset hphase hr =>
    have hn' := (hr.deleted n).mpr (.inl hn)
    dsimp only
    split <;> exact hn'

/-- A live Timer goes only by a cancel of its own, or by a `reset` that does not keep it. -/
theorem Effect.live_of_live (h : Effect s x t) {p : Ptr} {u : Timer}
    (hu : s.queue.mem.timerAt p = some u) (hcancel : x ≠ .cancelInLoop ⟨p, u.sequence⟩)
    (hreset : ∀ clock, x = .reset clock → ∀ it ∈ s.phase.batch, it.timer = p →
      s.queue.Kept it u) :
    ∃ v, t.queue.mem.timerAt p = some v ∧ v.sequence = u.sequence ∧ v.interval = u.interval := by
  cases h with
  | newTimer h => exact ⟨u, Memory.new_timerAt_of_live h hu, rfl, rfl⟩
  | added hout ht hfresh => exact ⟨u, by dsimp only; split <;> exact hu, rfl, rfl⟩
  | @cancelled r v hout ht ha =>
    by_cases hp : p = r
    · subst hp
      cases hu.symm.trans ht
      exact absurd rfl hcancel
    · exact ⟨u, (Memory.released_timerAt_of_ne ht hp).trans hu, rfl, rfl⟩
  | noted hn hcalling => exact ⟨u, hu, rfl, rfl⟩
  | ignored hn hidle => exact ⟨u, hu, rfl, rfl⟩
  | handleRead hidle hc hlate hq => exact ⟨u, by rw [hq]; exact hu, rfl, rfl⟩
  | run hphase ht => exact ⟨u, hu, rfl, rfl⟩
  | @reset now done clock q' hphase hr =>
    have hlive : ∃ v, q'.mem.timerAt p = some v ∧ v.sequence = u.sequence ∧
        v.interval = u.interval := by
      by_cases hp : ∀ it ∈ done, it.timer ≠ p
      · exact ⟨u, (hr.other p hp).1.trans hu, rfl, rfl⟩
      · obtain ⟨it, hit, rfl⟩ : ∃ it ∈ done, it.timer = p := by simpa using hp
        have hbatch : it ∈ s.phase.batch := by rw [hphase]; simpa [Phase.batch] using hit
        have hk := hreset clock rfl it hbatch rfl
        exact ⟨_, (hr.kept it hit u hu hk).1, Timer.restart_sequence .., Timer.restart_interval ..⟩
    dsimp only
    split <;> exact hlive

/-- What is noted during a batch was cancelled during it. -/
theorem Effect.mem_canceling (h : Effect s x t) (ht : t.phase ≠ .idle) {b : ActiveTimer}
    (hb : b ∈ t.queue.cancelingTimers) : s.phase ≠ .idle ∧ b ∈ s.queue.cancelingTimers ∨
      ∃ id, x = .cancelInLoop id ∧ b = id.toActive := by
  cases h with
  | newTimer h => exact .inl ⟨ht, hb⟩
  | added hout hu hfresh =>
    refine .inl ⟨ht, ?_⟩
    dsimp only at hb
    split at hb <;> exact hb
  | cancelled hout hu ha => exact .inl ⟨ht, hb⟩
  | @noted id hn hcalling =>
    rcases OrderedSet.mem_insert.mp hb with rfl | hb
    · exact .inr ⟨id, rfl, rfl⟩
    · exact .inl ⟨ht, hb⟩
  | ignored hn hidle => exact absurd hidle ht
  | handleRead hidle hc hlate hq => exact absurd hb (OrderedSet.notMem_empty b)
  | run hphase hu => exact .inl ⟨by rw [hphase]; exact Phase.noConfusion, hb⟩
  | reset hphase hr => exact absurd rfl ht

end Frame

/-- A Timer that was handed over has a number that was given. -/
theorem Invariant.handed_numbered {s : State} (inv : Invariant s) {a : ActiveTimer}
    (h : a ∈ s.handed) : a.sequence ≤ s.queue.mem.numCreated := by
  rcases inv.placed a h with hq | ⟨it, -, t, ht, rfl⟩ | hdel
  · obtain ⟨t, ht, hseq⟩ := inv.consistent.active_live a.timer a.sequence hq.1
    exact hseq ▸ s.queue.mem.numbered ht
  · exact s.queue.mem.numbered ht
  · exact s.queue.mem.deleted_numbered _ hdel

/-- **Step lemma.** -/
theorem Effect.invariant {s t : State} {a : Action} (h : Effect s a t) (inv : Invariant s) :
    Invariant t := by
  cases h with
  | newTimer h => exact inv.new h
  | added hout ht hfresh => exact inv.added ht hfresh (by split <;> rfl)
  | cancelled hout ht ha => exact inv.cancelled ht ha
  | noted hn hcalling =>
    exact ⟨inv.consistent.congr rfl rfl rfl, inv.calling, inv.placed, inv.queued_handed,
      inv.batch_handed⟩
  | ignored hn hidle => exact inv
  | handleRead hidle hc hlate hq => exact inv.handleRead hidle hc hlate hq
  | run hphase ht => exact inv.run hphase
  | reset hphase hr => exact inv.reset hphase hr (by split <;> rfl)

/-- **Run lemma.** -/
theorem reachable_invariant {s : State} (h : machine.Reachable s) : Invariant s := by
  refine h.invariant ?_ ?_
  · rintro _ ⟨mem, rfl⟩
    exact invariant_init mem
  · intro s a t inv hstep
    obtain ⟨u, hu, heff⟩ := Step.effect inv hstep
    cases hu
    exact heff.invariant inv

/-- Steps that `next` can compute. -/
theorem exists_step {s : State} {a : Action} {P : State → Bool} (h : (next s a).any P) :
    ∃ t, machine.step s a (.ok t) ∧ P t := by
  obtain ⟨t, ht, hP⟩ := Option.any_eq_true .. |>.mp h
  exact ⟨t, step_of_next ht, hP⟩

/-- Runs that `next` can compute. -/
theorem exists_run {s : State} {w : List Action} {P : State → Bool}
    (h : (w.foldlM next s).any P) : ∃ t, machine.Run s w t ∧ P t := by
  obtain ⟨t, ht, hP⟩ := Option.any_eq_true .. |>.mp h
  exact ⟨t, .of_foldlM step_of_next ht, hP⟩

theorem Step.effect_of_ok {s t : State} {a : Action} (inv : Invariant s)
    (hstep : Step s a (.ok t)) : Effect s a t := by
  obtain ⟨u, hu, heff⟩ := Step.effect inv hstep
  cases hu
  exact heff

/-- What a step from a reachable state does. -/
theorem reachable_effect {s t : State} {a : Action} (h : machine.Reachable s)
    (hstep : machine.step s a (.ok t)) : Effect s a t :=
  Step.effect_of_ok (reachable_invariant h) hstep

/-- No `assert` of the queue fails, and it touches no deleted Timer. -/
theorem machine_safe : machine.Safe := by
  intro s a e hs hstep
  obtain ⟨t, ht, -⟩ := Step.effect (reachable_invariant hs) hstep
  cases ht

/-- The safety rule for runs from a reachable state, one case per `Effect`. -/
theorem run_emits {P Q : Action → Prop} {I : State → Prop} {s t : State} {w : List Action}
    (hstep : ∀ {s a t}, Invariant s → P a → I s → Effect s a t → I t ∧ Q a)
    (hs : machine.Reachable s) (h : machine.Run s w t) (hw : ∀ a ∈ w, P a) (hI : I s) :
    I t ∧ ∀ a ∈ w, Q a := by
  have hrun := h.emits (I := fun s => machine.Reachable s ∧ I s) (Q := Q)
    (fun ha hs hst => by
      have hnext := hstep (reachable_invariant hs.1) ha hs.2 (reachable_effect hs.1 hst)
      exact ⟨⟨hs.1.step hst, hnext.1⟩, hnext.2⟩) hw ⟨hs, hI⟩
  exact ⟨hrun.1.2, hrun.2⟩

/-! ## A batch can be run to its end -/

/-- The next callback of the batch can be started. -/
theorem step_run {s : State} {now : Timestamp} {done rest : List Entry} {it : Entry} {t : Timer}
    (hphase : s.phase = .calling now done (it :: rest))
    (ht : s.queue.mem.timerAt it.timer = some t) :
    machine.step s (.run ⟨it.timer, t.sequence⟩)
      (.ok { s with phase := .calling now (done ++ [it]) rest }) := by
  have hrun : s.queue.runCallback it = .ok t.sequence := by
    simp [runCallback, Memory.deref_of_live ht, bind, Except.bind, pure, Except.pure]
  refine Step.run hphase (fun m hm => ?_) (by rw [hrun]; rfl)
  exact (Except.ok.inj (hrun.symm.trans hm)).symm

/-- The callbacks of the next entries `l` can be started one after the other. -/
theorem exists_run_through {now : Timestamp} {rest : List Entry} (l done : List Entry) (s : State)
    (inv : Invariant s) (hphase : s.phase = .calling now done (l ++ rest)) :
    ∃ w, machine.Run s w { s with phase := .calling now (done ++ l) rest } ∧
      ∀ x ∈ w, ∃ a, x = .run a := by
  induction l generalizing done s with
  | nil =>
    refine ⟨[], ?_, by simp⟩
    rw [List.append_nil, ← show s.phase = .calling now done rest from hphase]
    exact .nil
  | cons it l ih =>
    obtain ⟨t, ht, -, -⟩ := inv.consistent.batch_live it (by rw [hphase]; simp [Phase.batch])
    obtain ⟨w, hw, hall⟩ := ih (done ++ [it])
      { s with phase := .calling now (done ++ [it]) (l ++ rest) } (inv.run hphase) rfl
    refine ⟨_ :: w, .cons (step_run hphase ht) ?_, ?_⟩
    · simpa using hw
    · intro x hx
      rcases List.mem_cons.mp hx with rfl | hx
      · exact ⟨_, rfl⟩
      · exact hall x hx

/-- `handleRead` can be entered from every state outside a batch. -/
theorem exists_handleRead {s : State} (hs : machine.Reachable s) (hidle : s.phase = .idle)
    (now : Timestamp) : ∃ t, machine.step s (.handleRead now) (.ok t) := by
  have hstep : ∃ r, machine.step s (.handleRead now) r := ⟨_, .handleRead hidle rfl⟩
  obtain ⟨r, hr⟩ := hstep
  obtain ⟨t, rfl, -⟩ := Step.effect (reachable_invariant hs) hr
  exact ⟨t, hr⟩

/-- The batch in progress can be run to its end. -/
theorem exists_finish {s : State} (hs : machine.Reachable s) {now : Timestamp}
    {done rest : List Entry} (hphase : s.phase = .calling now done rest) (clock : Timestamp) :
    ∃ w t, machine.Run s w { s with phase := .calling now (done ++ rest) [] } ∧
      (∀ x ∈ w, ∃ a, x = .run a) ∧
      machine.step { s with phase := .calling now (done ++ rest) [] } (.reset clock) (.ok t) := by
  obtain ⟨w, hw, hall⟩ := exists_run_through rest done s (reachable_invariant hs)
    (hphase.trans (by rw [List.append_nil]))
  have hstep : ∃ r, machine.step { s with phase := .calling now (done ++ rest) [] }
      (.reset clock) r := ⟨_, .reset rfl rfl⟩
  obtain ⟨r, hr⟩ := hstep
  obtain ⟨t, rfl, -⟩ := Step.effect (reachable_invariant (hs.run hw)) hr
  exact ⟨w, t, hw, hall, hr⟩

/-- From every reachable state the batch in progress can be run to its end. -/
theorem exists_completion {s : State} (hs : machine.Reachable s) :
    ∃ w t, machine.Run s w t ∧ (∀ x, .handleRead x ∉ w) ∧ t.phase = .idle := by
  cases hphase : s.phase with
  | idle => exact ⟨[], s, .nil, by simp, hphase⟩
  | calling now done rest =>
    obtain ⟨w, t, hw, hall, hreset⟩ := exists_finish hs hphase now
    refine ⟨w ++ [.reset now], t, hw.snoc hreset, fun x hx => ?_, ?_⟩
    · rcases List.mem_append.mp hx with hx | hx
      · obtain ⟨a, ha⟩ := hall _ hx
        cases ha
      · simp at hx
    · cases reachable_effect (hs.run hw) hreset
      rfl

/-- A due timer that does not repeat can be gone after the next batch. -/
theorem exists_deleting_batch {s : State} (hs : machine.Reachable s) (hidle : s.phase = .idle)
    {p : Ptr} {u : Timer} (hu : s.queue.mem.timerAt p = some u)
    (ha : (⟨p, u.sequence⟩ : ActiveTimer) ∈ s.queue.activeTimers) (hrep : u.repeats = false)
    (clock : Timestamp) : ∃ s₁ w s₂ t, machine.step s (.handleRead u.expiration) (.ok s₁) ∧
      machine.Run s₁ w s₂ ∧ (∀ x ∈ w, ∃ b, x = .run b) ∧ machine.step s₂ (.reset clock) (.ok t) ∧
      t.Deleted ⟨p, u.sequence⟩ := by
  obtain ⟨s₁, hs₁⟩ := exists_handleRead hs hidle u.expiration
  have hdue : (⟨u.expiration, p⟩ : Entry) ∈ s.queue.expired u.expiration :=
    mem_expired.mpr ⟨(reachable_invariant hs).consistent.queued hu ha, le_rfl⟩
  have hbatch : s₁.phase = .calling u.expiration [] (s.queue.expired u.expiration) ∧
      s₁.queue.mem = s.queue.mem := by
    cases reachable_effect hs hs₁ with
    | handleRead _ hc hlate hq => exact ⟨rfl, by rw [hq]⟩
  obtain ⟨w, t, hw, hall, hreset⟩ := exists_finish (hs.step hs₁) hbatch.1 clock
  refine ⟨s₁, w, _, t, hs₁, hw, hall, hreset, ?_⟩
  have heff := reachable_effect ((hs.step hs₁).run hw) hreset
  cases heff with
  | @reset now done clock q' hphase hr =>
    obtain ⟨-, rfl, -⟩ := Phase.calling.inj hphase
    have hdel : u.sequence ∈ q'.mem.deleted := by
      refine (hr.deleted _).mpr (.inr ⟨⟨u.expiration, p⟩, hdue, u, ?_, fun hk => ?_, rfl⟩)
      · rw [← hu]
        exact congrArg (fun m => Memory.timerAt m p) hbatch.2
      · rw [Kept, hrep] at hk
        cases hk.1
    rw [State.Deleted]
    dsimp only
    split <;> exact hdel

end TimerQueue

end Dxian
