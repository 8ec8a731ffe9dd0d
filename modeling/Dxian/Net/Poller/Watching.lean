import Dxian.Net.Poller.Interchange

/-!
# Whom the kernel watches

The kernel should watch the channels that have events, and only these: it reports
`POLLHUP` and `POLLERR` even for an empty mask. Both pollers register a channel that
they did not watch without a look at its events, so a channel that is disabled at
that moment is watched for nothing.

## Main results

- `KeepsWatch` — the kernel watches whom it should, after every change
- `kernel_watches_interest_iff` — the lists of changes with this property, for both pollers
-/

namespace Dxian

open Transition

variable {Ch : Type}

/-- The operations of a list of changes. -/
def Channel.calls (v : List (Ch × Channel.Change)) : List (Ch × Channel.Op) :=
  v.map fun x => (x.1, .change x.2)

@[simp] theorem Channel.calls_append_singleton (v : List (Ch × Channel.Change)) (c : Ch)
    (x : Channel.Change) : calls (v ++ [(c, x)]) = calls v ++ [(c, .change x)] := by
  simp [calls]

theorem Channel.remove_notMem_calls (v : List (Ch × Channel.Change)) (c : Ch) :
    (c, Channel.Op.remove) ∉ calls v := by
  simp [calls]

/-! ## The law -/

namespace Poller

variable [DecidableEq Ch] {P : Type} {M : Poller Ch P} {watches : P → ℕ → BitVec 32 → Prop}
  {fd : Ch ↪ ℕ}

/-- A registered channel is watched for its events, if it has any; `watches p k m`
says that the kernel watches the file descriptor `k` with the mask `m`. -/
def Watching (M : Poller Ch P) (watches : P → ℕ → BitVec 32 → Prop) (fd : Ch ↪ ℕ)
    (s : PollerState Ch P) : Prop :=
  ∀ c, M.hasChannel fd s c = true → ∀ m,
    watches s.poller (fd c) m ↔ m = (s.channel c).events ∧ m ≠ Channel.kNoneEvent

/-- The law holds after every change of the list. -/
def KeepsWatch (M : Poller Ch P) (watches : P → ℕ → BitVec 32 → Prop) (fd : Ch ↪ ℕ)
    (w : List (Ch × Channel.Change)) : Prop :=
  ∀ v, v <+: w → ∃ s, M.system.Run M.fresh (Channel.calls v) s ∧ M.Watching watches fd s

theorem run_unique {w : List (Ch × Channel.Op)} {s t : PollerState Ch P}
    (hs : M.system.Run M.fresh w s) (ht : M.system.Run M.fresh w t) : s = t := by
  refine hs.unique (fun {s x t u} h h' => ?_) ht
  have heq : M.call s x = .ok t := h
  cases heq.symm.trans h'
  rfl

/-- If a change of a state with the law is executed, and keeps the law exactly if the
changes before it allow it, then the lists that keep the law are those of allowed
changes. -/
theorem keepsWatch_iff_respects {R : List (Ch × Channel.Change) → Ch × Channel.Change → Prop}
    (hfresh : M.Watching watches fd M.fresh)
    (hstep : ∀ {v s} c x, M.system.Run M.fresh (Channel.calls v) s → M.Watching watches fd s →
      ∃ s', M.call s (c, .change x) = .ok s' ∧ (M.Watching watches fd s' ↔ R v (c, x)))
    (w : List (Ch × Channel.Change)) : M.KeepsWatch watches fd w ↔ System.Respects R w := by
  induction w using List.reverseRecOn with
  | nil =>
    refine ⟨fun _ => System.respects_nil R, fun _ v hv => ⟨M.fresh, ?_, hfresh⟩⟩
    rw [List.prefix_nil.mp hv]
    exact .nil
  | append_singleton w x ih =>
    obtain ⟨c, x⟩ := x
    rw [System.respects_append_singleton, ← ih]
    constructor
    · intro h
      have hw : M.KeepsWatch watches fd w := fun v hv => h v (hv.trans (List.prefix_append ..))
      obtain ⟨s, hs, hlaw⟩ := hw w List.prefix_rfl
      obtain ⟨s', hcall, hiff⟩ := hstep c x hs hlaw
      obtain ⟨t, ht, hlaw'⟩ := h (w ++ [(c, x)]) List.prefix_rfl
      have hs' : M.system.Run M.fresh (Channel.calls (w ++ [(c, x)])) s' := by
        rw [Channel.calls_append_singleton]
        exact hs.snoc hcall
      rw [run_unique ht hs'] at hlaw'
      exact ⟨hw, hiff.mp hlaw'⟩
    · intro ⟨hw, hx⟩ v hv
      rcases List.prefix_concat_iff.mp hv with heq | hv
      · obtain ⟨s, hs, hlaw⟩ := hw w List.prefix_rfl
        obtain ⟨s', hcall, hiff⟩ := hstep c x hs hlaw
        refine ⟨s', ?_, hiff.mpr hx⟩
        rw [heq, Channel.calls_append_singleton]
        exact hs.snoc hcall
      · exact hw v hv

end Poller

/-! ## `EPollPoller` -/

namespace EPollPoller

variable {fd : Ch ↪ ℕ} {s : PollerState Ch (EPollPoller Ch)}

/-- The interest list has the file descriptor, with this mask. -/
def watches (p : EPollPoller Ch) (k : ℕ) (m : BitVec 32) : Prop :=
  ∃ c, p.interestList k = some (m, c)

/-- No change leaves a channel without events that had none before. -/
def NotDisabledTwice [DecidableEq Ch] (v : List (Ch × Channel.Change)) : Ch × Channel.Change → Prop
  | (c, x) => (Interest.after (Channel.calls v)).events c = Channel.kNoneEvent →
      x.apply Channel.kNoneEvent ≠ Channel.kNoneEvent

variable [DecidableEq Ch]

theorem watching_iff (inv : Invariant fd s) : (ePollPoller fd).Watching watches fd s ↔
    ∀ c, (s.channel c).events = Channel.kNoneEvent → s.poller.interestList (fd c) = none := by
  constructor
  · intro h c hevents
    have hstep := inv.inStep c
    cases hstep with
    | new _ _ hchannels _ =>
      exact inv.interestList_eq_none ((inv.free c).resolve_right hchannels)
    | added _ _ hchannels hlist =>
      have hwatched := (h c (decide_eq_true hchannels) _).mp ⟨c, hlist⟩
      exact absurd hevents hwatched.2
    | deleted _ _ _ hlist _ => exact hlist
  · intro h c hc m
    have hstep := inv.inStep c
    cases hstep with
    | new _ _ hchannels _ => exact absurd (of_decide_eq_true hc) hchannels
    | added _ _ _ hlist =>
      have hevents : (s.channel c).events ≠ Channel.kNoneEvent := by
        intro heq
        cases hlist.symm.trans (h c heq)
      constructor
      · intro ⟨d, hd⟩
        cases hlist.symm.trans hd
        exact ⟨rfl, hevents⟩
      · intro ⟨hm, _⟩
        exact ⟨c, by rw [hlist, hm]⟩
    | deleted _ _ _ hlist hevents =>
      constructor
      · intro ⟨d, hd⟩
        cases hlist.symm.trans hd
      · intro ⟨hm, hne⟩
        exact absurd (hm.trans hevents) hne

/-- What a change does to the law. -/
theorem Invariant.watching_change (inv : Invariant fd s)
    (hlaw : (ePollPoller fd).Watching watches fd s) (c : Ch) (x : Channel.Change) :
    ∃ s', (ePollPoller fd).call s (c, .change x) = .ok s' ∧
      ((ePollPoller fd).Watching watches fd s' ↔
        ((s.channel c).events = Channel.kNoneEvent →
          x.apply Channel.kNoneEvent ≠ Channel.kNoneEvent)) := by
  have hempty := (watching_iff inv).mp hlaw
  have hadded : (s.channel c).index = kAdded ↔ (s.channel c).events ≠ Channel.kNoneEvent := by
    have hstep := inv.inStep c
    cases hstep with
    | new hindex _ _ hevents => simp [hindex, hevents, kNew, kAdded]
    | added hindex _ _ hlist =>
      refine ⟨fun _ hevents => ?_, fun _ => hindex⟩
      cases hlist.symm.trans (hempty c hevents)
    | deleted hindex _ _ _ hevents => simp [hindex, hevents, kDeleted, kAdded]
  obtain ⟨y, e, hcall, hinv, hevents, he⟩ := inv.call_change (inv.free c) x
  refine ⟨_, hcall, ?_⟩
  rw [watching_iff hinv]
  constructor
  · intro h hnone hsame
    have hy : y.events = Channel.kNoneEvent := by rw [hevents, hnone, hsame]
    have hlist : e.map (·, c) = none := by simpa using h c (by simpa using hy)
    rw [he, if_neg fun hand => hadded.mp hand.1 hnone] at hlist
    cases hlist
  · intro h d hd
    by_cases hdc : d = c
    · subst hdc
      have hy : x.apply (s.channel d).events = Channel.kNoneEvent := by
        rw [← hevents]
        simpa using hd
      have hne : (s.channel d).events ≠ Channel.kNoneEvent := by
        intro hnone
        rw [hnone] at hy
        exact h hnone hy
      simp [he, hadded.mpr hne, hevents, hy]
    · have hfd : fd d ≠ fd c := fun heq => hdc (fd.injective heq)
      rw [setAt_channel, Function.update_of_ne hdc] at hd
      rw [setAt_interestList, Function.update_of_ne hfd]
      exact hempty d hd

theorem keepsWatch_iff (fd : Ch ↪ ℕ) (w : List (Ch × Channel.Change)) :
    (ePollPoller fd).KeepsWatch watches fd w ↔ System.Respects NotDisabledTwice w := by
  refine Poller.keepsWatch_iff_respects ?_ (fun {v s} c x hrun hlaw => ?_) w
  · intro c hc
    cases hc
  · obtain ⟨inv, hinterest⟩ := (refines fd).run hrun
    obtain ⟨s', hcall, hiff⟩ := inv.watching_change hlaw c x
    have hevents : (s.channel c).events = (Interest.after (Channel.calls v)).events c :=
      congrFun (congrArg Interest.events hinterest) c
    rw [hevents] at hiff
    exact ⟨s', hcall, hiff⟩

end EPollPoller

/-! ## `PollPoller` -/

namespace PollPoller

variable {fd : Ch ↪ ℕ} {s : PollerState Ch (PollPoller Ch)} {v : List (Ch × Channel.Change)}

/-- A slot has the file descriptor, with this mask. -/
def watches (p : PollPoller Ch) (k : ℕ) (m : BitVec 32) : Prop :=
  ∃ pfd ∈ p.pollfds, pfd.fd = k ∧ pfd.events.signExtend 32 = m

/-- The first change of a channel does not leave it without events. -/
def NotDisabledFirst [DecidableEq Ch] (v : List (Ch × Channel.Change)) : Ch × Channel.Change → Prop
  | (c, x) => Channel.operations (Channel.calls v) c = 0 →
      x.apply Channel.kNoneEvent ≠ Channel.kNoneEvent

/-- A registered channel is watched in its own slot only. -/
theorem Invariant.watches_iff (inv : Invariant fd s) {c : Ch} {p : PollFd} {m : BitVec 32}
    (hchannels : s.poller.channels (fd c) = some c) (hp : slot? s c = some p) :
    watches s.poller (fd c) m ↔ p.fd = fd c ∧ m = (s.channel c).events := by
  constructor
  · intro ⟨q, hq, hfd, hm⟩
    obtain ⟨i, hget⟩ := List.mem_iff_getElem?.mp hq
    have hlt : i < s.poller.pollfds.length := (List.getElem?_eq_some_iff.mp hget).1
    obtain ⟨d, hd, hi⟩ := inv.owner i hlt
    obtain ⟨q', hq', hslot⟩ := inv.slot d hd
    cases (slot?_eq_some.mpr ⟨i, hi, hget⟩).symm.trans hq'
    have hkey := hslot.key
    rw [hfd, if_neg (by omega)] at hkey
    obtain rfl : c = d := fd.injective (by omega)
    cases hp.symm.trans hq'
    exact ⟨hfd, hm.symm.trans hslot.signExtend_events⟩
  · intro ⟨hfd, hm⟩
    obtain ⟨i, -, hget⟩ := slot?_eq_some.mp hp
    obtain ⟨q, hq, hslot⟩ := inv.slot c hchannels
    cases hp.symm.trans hq
    exact ⟨p, List.mem_of_getElem? hget, hfd, hslot.signExtend_events.trans hm.symm⟩

variable [DecidableEq Ch]

theorem watching_iff (h : (pollPoller fd).system.Run (pollPoller fd).fresh (Channel.calls v) s) :
    (pollPoller fd).Watching watches fd s ↔ ∀ c, Channel.operations (Channel.calls v) c = 1 →
      (s.channel c).events ≠ Channel.kNoneEvent := by
  have inv := ((refines fd).run h).1
  have hist := History.of_run h
  constructor
  · intro hlaw c hone
    have hindex : 0 ≤ (s.channel c).index := by
      by_contra hneg
      have := (hist.index_neg c).mp (by omega)
      omega
    have hchannels : s.poller.channels (fd c) = some c := by
      by_contra hne
      exact Channel.remove_notMem_calls v c ((hist.removed c).mpr ⟨hindex, hne⟩)
    obtain ⟨p, hp, -⟩ := inv.slot c hchannels
    have hfd := (hist.watched c p hchannels hp).mpr (.inr hone)
    have hwatches := (inv.watches_iff hchannels hp).mpr ⟨hfd, rfl⟩
    exact ((hlaw c (decide_eq_true hchannels) _).mp hwatches).2
  · intro h c hc m
    have hchannels : s.poller.channels (fd c) = some c := of_decide_eq_true hc
    obtain ⟨p, hp, -⟩ := inv.slot c hchannels
    have hevents : Channel.operations (Channel.calls v) c = 1 →
        (s.channel c).events ≠ Channel.kNoneEvent := h c
    rw [inv.watches_iff hchannels hp, hist.watched c p hchannels hp, or_iff_left_of_imp hevents]
    constructor
    · intro ⟨hne, hm⟩
      exact ⟨hm, by rw [hm]; exact hne⟩
    · intro ⟨hm, hne⟩
      exact ⟨by rw [← hm]; exact hne, hm⟩

/-- What a change does to the law. -/
theorem watching_change (h : (pollPoller fd).system.Run (pollPoller fd).fresh (Channel.calls v) s)
    (hlaw : (pollPoller fd).Watching watches fd s) (c : Ch) (x : Channel.Change) :
    ∃ s', (pollPoller fd).call s (c, .change x) = .ok s' ∧
      ((pollPoller fd).Watching watches fd s' ↔ NotDisabledFirst v (c, x)) := by
  obtain ⟨inv, -⟩ := (refines fd).run h
  obtain ⟨s', hcall⟩ := exists_change h (Channel.remove_notMem_calls v c) x
  have hrun : (pollPoller fd).system.Run (pollPoller fd).fresh
      (Channel.calls (v ++ [(c, x)])) s' := by
    rw [Channel.calls_append_singleton]
    exact h.snoc hcall
  have hevents : ∀ d, (s'.channel d).events =
      Function.update (fun d => (s.channel d).events) c (x.apply (s.channel c).events) d :=
    congrFun (congrArg Interest.events ((refines fd).call inv hcall).2)
  have hempty := (watching_iff h).mp hlaw
  have hnone : Channel.operations (Channel.calls v) c = 0 →
      (s.channel c).events = Channel.kNoneEvent :=
    fun hzero => (inv.fresh c (((History.of_run h).index_neg c).mpr hzero)).2
  refine ⟨s', hcall, ?_⟩
  rw [watching_iff hrun, Channel.calls_append_singleton]
  constructor
  · intro h' hzero
    have hne := h' c (by rw [Channel.operations_append_self, hzero])
    rw [hevents, Function.update_self, hnone hzero] at hne
    exact hne
  · intro h' d hd
    by_cases hdc : d = c
    · rw [hdc, Channel.operations_append_self] at hd
      have hzero : Channel.operations (Channel.calls v) c = 0 := by omega
      rw [hdc, hevents, Function.update_self, hnone hzero]
      exact h' hzero
    · rw [Channel.operations_append_of_ne hdc] at hd
      rw [hevents, Function.update_of_ne hdc]
      exact hempty d hd

theorem keepsWatch_iff (fd : Ch ↪ ℕ) (w : List (Ch × Channel.Change)) :
    (pollPoller fd).KeepsWatch watches fd w ↔ System.Respects NotDisabledFirst w := by
  refine Poller.keepsWatch_iff_respects ?_
    (fun c x hrun hlaw => watching_change hrun hlaw c x) w
  intro c hc
  cases hc

end PollPoller

/-- **Whom the kernel watches.** After every change of a list the kernel watches exactly
the registered channels with events, and for these events, if and only if: under
`EPollPoller`, no change leaves a channel without events that had none before; under
`PollPoller`, the first change of no channel leaves it without events. -/
theorem kernel_watches_interest_iff [DecidableEq Ch] (fd : Ch ↪ ℕ)
    (w : List (Ch × Channel.Change)) :
    ((ePollPoller fd).KeepsWatch EPollPoller.watches fd w ↔
      System.Respects EPollPoller.NotDisabledTwice w) ∧
    ((pollPoller fd).KeepsWatch PollPoller.watches fd w ↔
      System.Respects PollPoller.NotDisabledFirst w) :=
  ⟨EPollPoller.keepsWatch_iff fd w, PollPoller.keepsWatch_iff fd w⟩

/-- A channel that is disabled before it was ever enabled is watched, by both pollers. -/
theorem disabled_channel_watched :
    (∃ s, (ePollPoller (Function.Embedding.refl ℕ)).system.Run
        (ePollPoller (Function.Embedding.refl ℕ)).fresh (Channel.calls [(3, .disableAll)]) s ∧
      (ePollPoller (Function.Embedding.refl ℕ)).hasChannel (Function.Embedding.refl ℕ) s 3 = true ∧
      (s.channel 3).events = Channel.kNoneEvent ∧
      EPollPoller.watches s.poller 3 Channel.kNoneEvent) ∧
    ∃ s, (pollPoller (Function.Embedding.refl ℕ)).system.Run
        (pollPoller (Function.Embedding.refl ℕ)).fresh (Channel.calls [(3, .disableAll)]) s ∧
      (pollPoller (Function.Embedding.refl ℕ)).hasChannel (Function.Embedding.refl ℕ) s 3 = true ∧
      (s.channel 3).events = Channel.kNoneEvent ∧
      PollPoller.watches s.poller 3 Channel.kNoneEvent := by
  constructor
  · obtain ⟨s, hrun, hQ⟩ := Poller.exists_run (M := ePollPoller (Function.Embedding.refl ℕ))
      (w := Channel.calls [(3, .disableAll)])
      (Q := fun s => s.poller.channels 3 = some 3 ∧ (s.channel 3).events = Channel.kNoneEvent ∧
        s.poller.interestList 3 = some (Channel.kNoneEvent, 3)) (by decide)
    obtain ⟨hchannels, hevents, hlist⟩ := of_decide_eq_true hQ
    exact ⟨s, hrun, decide_eq_true hchannels, hevents, 3, hlist⟩
  · obtain ⟨s, hrun, hQ⟩ := Poller.exists_run (M := pollPoller (Function.Embedding.refl ℕ))
      (w := Channel.calls [(3, .disableAll)])
      (Q := fun s => s.poller.channels 3 = some 3 ∧ (s.channel 3).events = Channel.kNoneEvent ∧
        s.poller.pollfds = [⟨3, 0, 0⟩]) (by decide)
    obtain ⟨hchannels, hevents, hpollfds⟩ := of_decide_eq_true hQ
    refine ⟨s, hrun, decide_eq_true hchannels, hevents, ⟨3, 0, 0⟩, ?_, rfl, rfl⟩
    rw [hpollfds]
    exact List.mem_singleton_self _

end Dxian
