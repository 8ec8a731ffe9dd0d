import Dxian.Net.TimerQueue.Ownership

/-!
# The destructor of the timer queue

`~TimerQueue` deletes the Timers in `timers_`. A Timer is deleted there, or before, only
after it has been handed over; and a number that was given belongs to a live or a deleted
Timer.

## Main results

- `exists_deleteEach` — the loop of the destructor, on entries of different live Timers
- `Invariant.destruct` — outside a batch the destructor deletes all Timers handed over
-/

namespace Dxian

open Transition

namespace TimerQueue

/-- The loop of `TimerQueue::~TimerQueue`. -/
def deleteEach (mem : Memory) : List Entry → Except Fault Memory
  | [] => .ok mem
  | timer :: rest => do
    let mem ← mem.delete timer.timer
    deleteEach mem rest

/-- `TimerQueue::~TimerQueue`, what it does to the Timers. -/
def destruct (q : TimerQueue) : Except Fault Memory := deleteEach q.mem q.timers.toList

/-- The number `n` belongs to a Timer of the entries. -/
def Numbers (mem : Memory) (l : List Entry) (n : ℤ) : Prop :=
  ∃ it ∈ l, ∃ t, mem.timerAt it.timer = some t ∧ t.sequence = n

theorem exists_deleteEach {mem : Memory} {l : List Entry}
    (hlive : ∀ it ∈ l, ∃ t, mem.timerAt it.timer = some t) (hnodup : (l.map Entry.timer).Nodup) :
    ∃ mem', deleteEach mem l = .ok mem' ∧ mem'.numCreated = mem.numCreated ∧
      (∀ n, n ∈ mem'.deleted ↔ n ∈ mem.deleted ∨ Numbers mem l n) ∧
      ∀ p, mem'.timerAt p = if p ∈ l.map Entry.timer then none else mem.timerAt p := by
  induction l generalizing mem with
  | nil => exact ⟨mem, rfl, rfl, fun n => by simp [Numbers], fun _ => rfl⟩
  | cons it l ih =>
    obtain ⟨t, ht⟩ := hlive it List.mem_cons_self
    rw [List.map_cons, List.nodup_cons] at hnodup
    have hne : ∀ jt ∈ l, jt.timer ≠ it.timer := fun jt hjt heq =>
      hnodup.1 (heq ▸ List.mem_map_of_mem hjt)
    have hsame : ∀ jt ∈ l, (mem.released it.timer t ht).timerAt jt.timer = mem.timerAt jt.timer :=
      fun jt hjt => Memory.released_timerAt_of_ne ht (hne jt hjt)
    have hlive' : ∀ jt ∈ l, ∃ u, (mem.released it.timer t ht).timerAt jt.timer = some u := by
      intro jt hjt
      rw [hsame jt hjt]
      exact hlive jt (List.mem_cons_of_mem _ hjt)
    obtain ⟨mem', hdelete, hcreated, hdeleted, hafter⟩ := ih hlive' hnodup.2
    have hnumbers : ∀ n, Numbers (mem.released it.timer t ht) l n ↔ Numbers mem l n := fun n =>
      exists_congr fun jt => and_congr_right fun hjt => by rw [hsame jt hjt]
    refine ⟨mem', ?_, hcreated, fun n => ?_, fun p => ?_⟩
    · rw [deleteEach, Memory.delete_of_live ht]
      exact hdelete
    · rw [hdeleted, hnumbers]
      show n ∈ t.sequence :: mem.deleted ∨ _ ↔ _
      have hcons : Numbers mem (it :: l) n ↔ n = t.sequence ∨ Numbers mem l n := by
        simp [Numbers, ht, eq_comm]
      rw [List.mem_cons, hcons, ← or_assoc, or_comm (a := n ∈ mem.deleted)]
    · rw [hafter]
      by_cases hp : p = it.timer
      · subst hp
        rw [if_neg hnodup.1, Memory.released_timerAt_self, List.map_cons,
          if_pos List.mem_cons_self]
      · rw [Memory.released_timerAt_of_ne ht hp, List.map_cons]
        simp only [List.mem_cons, hp, false_or]

/-! ## Who is deleted -/

/-- Only a Timer that was handed over is deleted. -/
def State.OnlyHanded (s : State) : Prop :=
  ∀ n ∈ s.queue.mem.deleted, ∃ a ∈ s.handed, a.sequence = n

/-- Every number that was given belongs to a live Timer or to a deleted one. -/
def State.Accounted (s : State) : Prop :=
  ∀ n, 0 < n → n ≤ s.queue.mem.numCreated →
    n ∈ s.queue.mem.deleted ∨ ∃ p t, s.queue.mem.timerAt p = some t ∧ t.sequence = n

section Step

variable {s t : State} {x : Action}

theorem Effect.handed_mono (h : Effect s x t) {a : ActiveTimer} (ha : a ∈ s.handed) :
    a ∈ t.handed := by
  rw [h.handed_eq]
  exact List.mem_append_right _ ha

/-- Where a deleted Timer comes from. -/
theorem Effect.deleted_of (h : Effect s x t) (inv : Invariant s) {n : ℤ}
    (hn : n ∈ t.queue.mem.deleted) :
    n ∈ s.queue.mem.deleted ∨ ∃ a ∈ s.handed, a.sequence = n := by
  cases h with
  | newTimer | noted | ignored | run => exact .inl hn
  | added =>
    dsimp only at hn
    split at hn <;> exact .inl hn
  | cancelled hout ht ha =>
    rcases List.mem_cons.mp hn with rfl | hn
    · exact .inr ⟨_, inv.queued_handed _ ha, rfl⟩
    · exact .inl hn
  | handleRead hidle hc hlate hq =>
    rw [hq] at hn
    exact .inl hn
  | @reset now done clock q' hphase hr =>
    have hdel : n ∈ q'.mem.deleted := by
      dsimp only at hn
      split at hn <;> exact hn
    rcases (hr.deleted n).mp hdel with hn | ⟨it, hit, u, hu, -, rfl⟩
    · exact .inl hn
    · have hbatch : it ∈ s.phase.batch := by
        rw [hphase]
        simpa [Phase.batch] using hit
      exact .inr ⟨_, inv.batch_handed _ ⟨it, hbatch, u, hu, rfl⟩, rfl⟩

/-- A live Timer keeps its number until it is deleted. -/
theorem Effect.live_or_deleted (h : Effect s x t) {p : Ptr} {u : Timer}
    (hu : s.queue.mem.timerAt p = some u) : u.sequence ∈ t.queue.mem.deleted ∨
      ∃ v, t.queue.mem.timerAt p = some v ∧ v.sequence = u.sequence := by
  by_cases hcancel : x = .cancelInLoop ⟨p, u.sequence⟩
  · generalize hid : (⟨p, u.sequence⟩ : TimerId) = id at hcancel
    subst hcancel
    cases h with
    | cancelled hout ht ha =>
      obtain ⟨-, hseq⟩ := TimerId.mk.inj hid
      exact .inl (hseq ▸ List.mem_cons_self)
    | noted | ignored => exact .inr ⟨u, hu, rfl⟩
  by_cases hreset : ∀ clock, x = .reset clock → ∀ it ∈ s.phase.batch, it.timer = p →
      s.queue.Kept it u
  · obtain ⟨v, hv, hseq, -⟩ := h.live_of_live hu hcancel hreset
    exact .inr ⟨v, hv, hseq⟩
  · -- a Timer of the batch that is not kept
    push Not at hreset
    obtain ⟨clock, rfl, it, hit, rfl, hk⟩ := hreset
    cases h with
    | @reset now done clock q' hphase hr =>
      have hdone : it ∈ done := by
        rw [hphase] at hit
        simpa [Phase.batch] using hit
      have hdel := (hr.deleted u.sequence).mpr (.inr ⟨it, hdone, u, hu, hk, rfl⟩)
      refine .inl ?_
      dsimp only
      split <;> exact hdel

/-- A live Timer is new, or was live with the same number. -/
theorem Effect.live_of (h : Effect s x t) (inv : Invariant s) {p : Ptr} {v : Timer}
    (hv : t.queue.mem.timerAt p = some v) :
    (∃ u, s.queue.mem.timerAt p = some u ∧ u.sequence = v.sequence) ∨
      v.sequence = s.queue.mem.numCreated + 1 ∧ ∃ when interval, x = .newTimer p when interval := by
  cases h with
  | @newTimer r when interval hfree =>
    by_cases hp : p = r
    · subst hp
      cases (Memory.new_timerAt_self hfree).symm.trans hv
      exact .inr ⟨rfl, when, interval, rfl⟩
    · exact .inl ⟨v, (Memory.new_timerAt_of_ne hfree hp).symm.trans hv, rfl⟩
  | added =>
    dsimp only at hv
    split at hv <;> exact .inl ⟨v, hv, rfl⟩
  | @cancelled r u hout ht ha =>
    have hp : p ≠ r := by
      rintro rfl
      cases (Memory.released_timerAt_self ht).symm.trans hv
    exact .inl ⟨v, (Memory.released_timerAt_of_ne ht hp).symm.trans hv, rfl⟩
  | noted | ignored | run => exact .inl ⟨v, hv, rfl⟩
  | handleRead hidle hc hlate hq =>
    rw [hq] at hv
    exact .inl ⟨v, hv, rfl⟩
  | @reset now done clock q' hphase hr =>
    replace hv : q'.mem.timerAt p = some v := by
      dsimp only at hv
      split at hv <;> exact hv
    by_cases hp : ∀ it ∈ done, it.timer ≠ p
    · exact .inl ⟨v, (hr.other p hp).1.symm.trans hv, rfl⟩
    · obtain ⟨it, hit, rfl⟩ : ∃ it ∈ done, it.timer = p := by simpa using hp
      obtain ⟨u, hu, -, -⟩ := inv.consistent.batch_live it (by
        rw [hphase]
        simpa [Phase.batch] using hit)
      by_cases hk : s.queue.Kept it u
      · cases (hr.kept it hit u hu hk).1.symm.trans hv
        exact .inl ⟨u, hu, (u.restart_sequence now).symm⟩
      · cases (hr.dropped it hit u hu hk).symm.trans hv

theorem Effect.onlyHanded (h : Effect s x t) (inv : Invariant s) (hs : s.OnlyHanded) :
    t.OnlyHanded := by
  intro n hn
  have hbefore : ∃ a ∈ s.handed, a.sequence = n := (h.deleted_of inv hn).elim (hs n) id
  obtain ⟨a, ha, hseq⟩ := hbefore
  exact ⟨a, h.handed_mono ha, hseq⟩

theorem Effect.accounted (h : Effect s x t) (hs : s.Accounted) : t.Accounted := by
  intro n hpos hle
  by_cases hold : n ≤ s.queue.mem.numCreated
  · rcases hs n hpos hold with hdel | ⟨p, u, hu, rfl⟩
    · exact .inl (h.deleted_mono hdel)
    · exact (h.live_or_deleted hu).imp_right fun hlive => ⟨p, hlive⟩
  · -- the number is new
    cases h with
    | newTimer hfree =>
      replace hle : n ≤ s.queue.mem.numCreated + 1 := hle
      exact .inr ⟨_, _, Memory.new_timerAt_self hfree, by simp only; omega⟩
    | added =>
      dsimp only at hle
      split at hle <;> exact absurd hle hold
    | cancelled | noted | ignored | run => exact absurd hle hold
    | handleRead hidle hc hlate hq =>
      rw [hq] at hle
      exact absurd hle hold
    | reset hphase hr =>
      refine absurd ?_ hold
      dsimp only at hle
      split at hle <;> exact hr.numCreated ▸ hle

end Step

/-- **Run lemma.** -/
theorem onlyHanded_and_accounted {s : State} {w : List Action}
    (h : machine.Run ⟨empty .empty, .idle, []⟩ w s) : s.OnlyHanded ∧ s.Accounted := by
  have hinit : machine.Reachable ⟨empty .empty, .idle, []⟩ := .of_init ⟨_, rfl⟩
  refine (run_emits (P := fun _ => True) (Q := fun _ => True)
    (I := fun s => s.OnlyHanded ∧ s.Accounted) ?_ hinit h (fun _ _ => trivial) ?_).1
  · intro s x t inv _ hs heff
    exact ⟨⟨heff.onlyHanded inv hs.1, heff.accounted hs.2⟩, trivial⟩
  · refine ⟨fun n hn => absurd hn List.not_mem_nil, fun n hpos hle => ?_⟩
    exact absurd hpos (not_lt.mpr hle)

/-- Outside a batch a Timer that was handed over and lives is in `timers_`. -/
theorem Invariant.queued_of_live {s : State} (inv : Invariant s) (hidle : s.phase = .idle)
    {p : Ptr} {t : Timer} (ht : s.queue.mem.timerAt p = some t)
    (hhanded : ⟨p, t.sequence⟩ ∈ s.handed) : (⟨t.expiration, p⟩ : Entry) ∈ s.queue.timers := by
  rcases inv.placed _ hhanded with hq | ⟨it, hit, -⟩ | hdel
  · exact inv.consistent.queued ht hq.1
  · rw [hidle] at hit
    cases hit
  · exact absurd hdel (s.queue.mem.deleted_dead ht)

/-- Outside a batch the destructor deletes the Timers that were handed over and live. -/
theorem Invariant.destruct {s : State} (inv : Invariant s) (hidle : s.phase = .idle) :
    ∃ mem, s.queue.destruct = .ok mem ∧ mem.numCreated = s.queue.mem.numCreated ∧
      (∀ n, n ∈ mem.deleted ↔ n ∈ s.queue.mem.deleted ∨ ∃ p t,
        s.queue.mem.timerAt p = some t ∧ ⟨p, t.sequence⟩ ∈ s.handed ∧ t.sequence = n) ∧
      ∀ p t, mem.timerAt p = some t ↔
        s.queue.mem.timerAt p = some t ∧ ⟨p, t.sequence⟩ ∉ s.handed := by
  have c := inv.consistent
  have hlive : ∀ it ∈ s.queue.timers.toList, ∃ t, s.queue.mem.timerAt it.timer = some t := by
    intro it hit
    obtain ⟨t, ht, -⟩ := (c.timers_iff it.expiration it.timer).mp hit
    exact ⟨t, ht⟩
  obtain ⟨mem, hmem, hcreated, hdeleted, hafter⟩ := exists_deleteEach hlive c.timers_nodup
  have hin : ∀ {it : Entry} {t}, it ∈ s.queue.timers → s.queue.mem.timerAt it.timer = some t →
      ⟨it.timer, t.sequence⟩ ∈ s.handed := by
    intro it t hit ht
    obtain ⟨u, hu, -, ha⟩ := (c.timers_iff it.expiration it.timer).mp hit
    cases ht.symm.trans hu
    exact inv.queued_handed _ ha
  refine ⟨mem, hmem, hcreated, fun n => (hdeleted n).trans (or_congr_right ?_),
    fun p t => ?_⟩
  · constructor
    · rintro ⟨it, hit, t, ht, rfl⟩
      exact ⟨it.timer, t, ht, hin hit ht, rfl⟩
    · rintro ⟨p, t, ht, hhanded, rfl⟩
      exact ⟨⟨t.expiration, p⟩, inv.queued_of_live hidle ht hhanded, t, ht, rfl⟩
  · rw [hafter, Option.ite_none_left_eq_some, and_comm]
    refine and_congr_right fun ht => not_congr ?_
    rw [List.mem_map]
    constructor
    · rintro ⟨it, hit, rfl⟩
      exact hin hit ht
    · exact fun hhanded => ⟨_, inv.queued_of_live hidle ht hhanded, rfl⟩

end TimerQueue

end Dxian
