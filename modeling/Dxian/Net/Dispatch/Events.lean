import Dxian.Net.Dispatch.Pollers
import Dxian.Net.HandleEvent
import Dxian.Net.Poller.Slots

/-!
# From the kernel to the callbacks

`poll` writes to `revents_` what the kernel reports, and `handleEvent` reads it when the
loop comes to the channel. In between other handlers run, which may change the interest of
the channel. The kernel reports the events it was asked for when `poll` was called.

## Main results

- `Demultiplexer.Reports` — the `revents_` of the active channels are what the kernel reports
- `reported_events_handled` — who is handled after a `poll`, in which order, and by which callbacks
-/

namespace Dxian

open Transition

namespace Demultiplexer

variable {Ch P X A : Type} [DecidableEq Ch]

/-- The answers of a kernel that keeps to `asked`. -/
def restrict (D : Demultiplexer Ch P X A) (asked : PollerState Ch P → A → Prop) :
    Demultiplexer Ch P X A :=
  { D with answers := fun s wait a => D.answers s wait a ∧ asked s a }

theorem Sound.restrict {D : Demultiplexer Ch P X A} {fd : Ch → ℕ} {I : PollerState Ch P → Prop}
    (h : D.Sound fd I) (asked : PollerState Ch P → A → Prop) : (D.restrict asked).Sound fd I where
  refines := h.refines
  poll hI ha := h.poll hI ha.1

/-- The active channels are those with an event in the answer of the kernel; their `revents_`
are those of their events, and reported for the interest that they have. -/
def Reports (D : Demultiplexer Ch P X A) (I : PollerState Ch P → Prop)
    (hasEvent : PollerState Ch P → A → Ch → BitVec 32 → Prop) : Prop :=
  ∀ {s wait revents a p}, I s → D.answers s wait a → D.poll s wait revents a = .ok p →
    (∀ c r, hasEvent s a c r → c ∈ p.activeChannels) ∧
    ∀ c ∈ p.activeChannels, hasEvent s a c (p.revents c) ∧
      Channel.Reported (s.channel c).events (p.revents c)

end Demultiplexer

/-! ## The loop -/

namespace Dispatcher

variable {T F C P X A : Type} [DecidableEq T] [DecidableEq C]
variable {D : Demultiplexer (ActiveChannel C) P X A} {fd : ActiveChannel C → ℕ}
variable {I : PollerState (ActiveChannel C) P → Prop} {d₀ d d' : Dispatcher T F C P X}
variable {v w u : List (Action T F C A)}

/-- The channel that gets the control. -/
def Action.dispatched : Action T F C A → List (ActiveChannel C)
  | loop x => x.dispatched.toList
  | _ => []

/-- The operation on a channel. -/
def Action.called : Action T F C A → List (ActiveChannel C × Channel.Op)
  | call c op => [(c, op)]
  | _ => []

omit [DecidableEq C] in
/-- A step of the loop other than `poll` takes the channel that it dispatches to. -/
theorem pending_of_loop {x : EventLoop.Action T F C} {l : EventLoop T F C}
    (hpoll : ∀ active, x ≠ .poll active) (h : EventLoop.Step d.loop x (.ok l)) :
    d.pending = x.dispatched.toList ++ (d.advance x l).pending := by
  rcases loop_pending hpoll h with heq | ⟨hnil, hnone⟩
  · exact heq
  · have hempty : d.pending = [] := by
      cases h with
      | poll => exact absurd rfl (hpoll _)
      | queueInLoop | quit | wakeup => exact hnil
      | handleRead | handleEvent => cases hnone
      | finishEvent hpc => rw [pending, hpc]; exact hnil
      | test hpc | doPendingFunctors hpc | swap hpc | runFunctor hpc | finishFunctor hpc
      | finishFunctors hpc => rw [pending, hpc]
    rw [hnil, hnone, hempty]
    rfl

/-- What stays from one `poll` to the next. -/
structure Since (d d' : Dispatcher T F C P X) (u : List (Action T F C A)) : Prop where
  revents : d'.revents = d.revents
  activeChannels : d'.activeChannels = d.activeChannels
  handled : d.pending = u.flatMap Action.dispatched ++ d'.pending

theorem Since.step {x : Action T F C A} (hpoll : ∀ a, x ≠ .poll a) (h : Step D d x (.ok d')) :
    Since d d' [x] := by
  cases h with
  | poll => exact absurd rfl (hpoll _)
  | enter hpc => exact ⟨rfl, rfl, by simp [pending, hpc, enter, EventLoop.enter,
      Action.dispatched]⟩
  | @loop x l hactive hstep =>
    refine ⟨?_, advance_activeChannels d x l, ?_⟩
    · cases x <;> rfl
    · rw [pending_of_loop hactive hstep, List.flatMap_singleton]
      rfl
  | call hpc hcall hr =>
    obtain ⟨s, -, rfl⟩ := exists_of_map_eq_ok hr
    exact ⟨rfl, rfl, rfl⟩

/-- **Run lemma.** -/
theorem Since.run (h : (machine T F D).Run d u d') (hpoll : ∀ a, .poll a ∉ u) : Since d d' u := by
  induction h with
  | nil => exact ⟨rfl, rfl, rfl⟩
  | @snoc u d₁ d₂ x _ hstep ih =>
    have hbefore := ih fun a ha => hpoll a (List.mem_append_left _ ha)
    have hlast := Since.step (fun a heq => hpoll a (by simp [heq])) hstep
    refine ⟨hlast.revents.trans hbefore.revents,
      hlast.activeChannels.trans hbefore.activeChannels, ?_⟩
    rw [hbefore.handled, hlast.handled, List.flatMap_append, List.append_assoc]

/-- The interest in the channels is what the operations ask for. -/
theorem interest_of_run (sound : D.Sound fd I) (hinit : (machine T F D).init d₀)
    (h : (machine T F D).Run d₀ w d) :
    D.interest fd d.pollers = .after (w.flatMap Action.called) := by
  induction h with
  | nil =>
    rw [hinit.2.1]
    exact sound.refines.fresh.2
  | @snoc w d d' x hrun hstep ih =>
    have inv := (run sound hinit hrun).1
    rw [List.flatMap_append, List.flatMap_singleton]
    have hquiet : ∀ {y : Action T F C A}, y.called = [] →
        Interest.after (w.flatMap Action.called ++ y.called) = D.interest fd d.pollers := by
      intro y hy
      rw [hy, List.append_nil, ih]
    cases hstep with
    | enter => exact (hquiet rfl).symm
    | loop =>
      rw [advance_pollers]
      exact (hquiet rfl).symm
    | poll hpc ha hr =>
      obtain ⟨p, hp, -, hinterest, -⟩ := sound.poll inv.pollers ha
      rw [hp] at hr
      cases hr
      exact hinterest.trans (hquiet rfl).symm
    | call hpc hcall hr =>
      obtain ⟨s, hs, rfl⟩ := exists_of_map_eq_ok hr
      rw [Action.called, Interest.after_append_singleton, ← ih]
      exact (sound.refines.call inv.pollers (of_call hs).1).2

/-- The channels that the last `poll` has reported are those with an event in the answer of
the kernel. The first ones have been handled, in order and each once, and the others are still
to be. The handler of a channel calls, in the order close, error, read, write, exactly the
callbacks that are set and that the event is for, unless the owner that it is tied to is gone;
every event is for some callback, and one to read or to write for a channel that had asked for
that when `poll` was called. -/
def HandlesReported (T F : Type) [DecidableEq T] (D : Demultiplexer (ActiveChannel C) P X A)
    (hasEvent : PollerState (ActiveChannel C) P → A → ActiveChannel C → BitVec 32 → Prop) : Prop :=
  ∀ d₀ d₁ d v a u, (machine T F D).init d₀ → (machine T F D).Run d₀ v d₁ →
    (machine T F D).Run d₁ (.poll a :: u) d → (∀ b, .poll b ∉ u) →
    (∀ c, c ∈ d.activeChannels ↔ ∃ r, hasEvent d₁.pollers a c r) ∧
    d.activeChannels = u.flatMap Action.dispatched ++ d.pending ∧ d.activeChannels.Nodup ∧
    ∀ c ∈ d.activeChannels, hasEvent d₁.pollers a c (d.revents c) ∧
      (∀ tie_ logHup_ isSet,
        (Channel.handleEvent tie_ logHup_ isSet (d.revents c)).filterMap
          Channel.Handled.callback? =
        if tie_ = some false then []
        else [Channel.Callback.close, .error, .read, .write].filter
          fun x => x.asked (d.revents c) && isSet x) ∧
      (∃ x : Channel.Callback, x.asked (d.revents c) = true) ∧
      (Channel.Callback.read.asked (d.revents c) = true →
        Channel.isReading ((Interest.after (v.flatMap Action.called)).events c) = true) ∧
      (Channel.Callback.write.asked (d.revents c) = true →
        Channel.isWriting ((Interest.after (v.flatMap Action.called)).events c) = true)

variable {hasEvent : PollerState (ActiveChannel C) P → A → ActiveChannel C → BitVec 32 → Prop}

theorem handlesReported (sound : D.Sound fd I) (hreports : D.Reports I hasEvent) :
    HandlesReported T F D hasEvent := by
  intro d₀ d₁ d v a u hinit hv hrest hpoll
  obtain ⟨d₂, hstep, hu⟩ := hrest.head
  have inv := (run sound hinit hv).1
  have hsince := Since.run hu hpoll
  cases hstep with
  | poll hpc ha hr =>
    obtain ⟨p, hp, -, -, hnodup, -⟩ := sound.poll inv.pollers ha
    rw [hp] at hr
    cases hr
    obtain ⟨hevery, hrevents⟩ := hreports inv.pollers ha hp
    have hactive : d.activeChannels = p.activeChannels := hsince.activeChannels
    refine ⟨fun c => ⟨fun hc => ⟨_, (hrevents c (hactive ▸ hc)).1⟩, fun ⟨r, hr⟩ => ?_⟩,
      hactive.trans hsince.handled, hactive ▸ hnodup, fun c hc => ?_⟩
    · rw [hactive]
      exact hevery c r hr
    · obtain ⟨hhasEvent, hreported⟩ := hrevents c (hactive ▸ hc)
      have hmasked := (d₁.pollers.channel c).masked
      have hevents : (d₁.pollers.channel c).events =
          (Interest.after (v.flatMap Action.called)).events c :=
        congrFun (congrArg Interest.events (interest_of_run sound hinit hv)) c
      rw [hsince.revents, ← hevents]
      exact ⟨hhasEvent, fun _ _ _ => Channel.callbacks_handleEvent, hreported.exists_asked hmasked,
        hreported.isReading hmasked, hreported.isWriting hmasked⟩

end Dispatcher

/-! ## The pollers -/

theorem exists_of_forall₂ {α β : Type} {R : α → β → Prop} {l : List α} {m : List β}
    (h : List.Forall₂ R l m) {b : β} (hb : b ∈ m) : ∃ a ∈ l, R a b := by
  induction h with
  | nil => cases hb
  | cons hR _ ih =>
    rcases List.mem_cons.mp hb with rfl | hb
    · exact ⟨_, List.mem_cons_self, hR⟩
    · obtain ⟨a, ha, hab⟩ := ih hb
      exact ⟨a, List.mem_cons_of_mem _ ha, hab⟩

variable {Ch : Type}

namespace EPollPoller

/-- `epoll_wait` reports events, for the masks of the interest list. -/
def Asked (s : PollerState Ch (EPollPoller Ch)) : Option (List (BitVec 32 × Ch)) → Prop
  | none => True
  | some events => ∀ e ∈ events, ∀ k m, s.poller.interestList k = some (m, e.2) →
      Channel.Reported m e.1

/-- An event of the answer, with its pointer. -/
def HasEvent (_ : PollerState Ch (EPollPoller Ch)) (a : Option (List (BitVec 32 × Ch))) (c : Ch)
    (revents : BitVec 32) : Prop :=
  ∃ events, a = some events ∧ (revents, c) ∈ events

variable [DecidableEq Ch] {fd : Ch → ℕ}

/-- What the loop of `fillActiveChannels` leaves in `revents_`. -/
theorem revents_of_fill {channels : ℕ → Option Ch} {events : List (BitVec 32 × Ch)}
    {revents revents' : Ch → BitVec 32} {active : List Ch}
    (h : fillActiveChannels fd channels events revents = .ok (revents', active)) :
    active = events.map Prod.snd ∧ (active.Nodup → ∀ e ∈ events, revents' e.2 = e.1) ∧
      ∀ c, c ∉ active → revents' c = revents c := by
  induction events generalizing revents revents' active with
  | nil =>
    cases h
    exact ⟨rfl, fun _ => nofun, fun _ _ => rfl⟩
  | cons e rest ih =>
    obtain ⟨mask, c⟩ := e
    obtain ⟨x, -, h⟩ := exists_of_bind_eq_ok h
    obtain ⟨y, -, h⟩ := exists_of_bind_eq_ok h
    obtain ⟨z, hrest, h⟩ := exists_of_bind_eq_ok h
    cases h
    obtain ⟨hactive, hevents, hother⟩ := ih hrest
    refine ⟨by rw [hactive]; rfl, fun hnodup e he => ?_, fun d hd => ?_⟩
    · obtain ⟨hc, hnodup⟩ := List.nodup_cons.mp hnodup
      rcases List.mem_cons.mp he with rfl | he
      · rw [hother c hc, Function.update_self]
      · exact hevents hnodup e he
    · rw [List.mem_cons, not_or] at hd
      rw [hother d hd.2, Function.update_of_ne hd.1]

omit [DecidableEq Ch] in
/-- The mask of an entry is the interest of its channel. -/
theorem Invariant.mask_eq {s : PollerState Ch (EPollPoller Ch)} (inv : Invariant fd s) {k : ℕ}
    {m : BitVec 32} {c : Ch} (h : s.poller.interestList k = some (m, c)) :
    m = (s.channel c).events := by
  obtain ⟨rfl, hchannels⟩ := inv.list_key k m c h
  cases inv.inStep c with
  | new _ _ hnew _ => exact absurd hchannels hnew
  | added _ _ _ hlist => cases hlist.symm.trans h; rfl
  | deleted _ _ _ hlist _ => cases hlist.symm.trans h

theorem reports (fd : Ch → ℕ) :
    ((ePollDemultiplexer fd).restrict Asked).Reports (Invariant fd) HasEvent := by
  intro s wait revents a p inv ha hp
  replace hp : EPollPoller.poll fd s wait revents a = .ok p := hp
  cases a with
  | none =>
    cases hp
    refine ⟨fun c r hr => ?_, fun c hc => absurd hc List.not_mem_nil⟩
    obtain ⟨_, hsome, -⟩ := hr
    cases hsome
  | some events =>
    rw [EPollPoller.poll] at hp
    split at hp
    · obtain ⟨x, -, hp⟩ := exists_of_bind_eq_ok hp
      obtain ⟨⟨revents', active⟩, hfill, hp⟩ := exists_of_bind_eq_ok hp
      cases hp
      obtain ⟨hactive, hevents, -⟩ := revents_of_fill hfill
      refine ⟨fun c r hr => ?_, fun c hc => ?_⟩
      · obtain ⟨_, hsome, he⟩ := hr
        cases hsome
        exact hactive ▸ List.mem_map_of_mem he
      · replace hc : c ∈ active := hc
        rw [hactive] at hc
        obtain ⟨e, he, rfl⟩ := List.mem_map.mp hc
        have hnodup := (inv.of_answers ha.1).2
        rw [← hactive] at hnodup
        obtain ⟨-, fds, -, hentries⟩ := ha.1
        obtain ⟨k, -, m, hm⟩ := exists_of_forall₂ hentries he
        show HasEvent _ _ _ (revents' e.2) ∧ Channel.Reported (s.channel e.2).events (revents' e.2)
        rw [hevents hnodup e he, ← inv.mask_eq hm]
        exact ⟨⟨events, rfl, he⟩, ha.2 e he k m hm⟩
    · next hpos =>
      cases hp
      refine ⟨fun c r hr => ?_, fun c hc => absurd hc List.not_mem_nil⟩
      obtain ⟨_, hsome, he⟩ := hr
      cases hsome
      exact absurd (List.length_pos_of_mem he) hpos

end EPollPoller

namespace PollPoller

variable [DecidableEq Ch] {fd : Ch → ℕ}

/-- What the loop of `fillActiveChannels` leaves in `revents_`. -/
theorem revents_of_fill {channels : ℕ → Option Ch} {pollfds : List PollFd}
    {revents revents' : Ch → BitVec 32} {active : List Ch}
    (h : fillActiveChannels fd channels pollfds revents = .ok (revents', active)) :
    (active.Nodup → ∀ c ∈ active, ∃ p ∈ pollfds, 0 < p.revents.toInt ∧ p.fd = fd c ∧
      revents' c = p.revents.signExtend 32) ∧ ∀ c, c ∉ active → revents' c = revents c := by
  induction pollfds generalizing revents revents' active with
  | nil =>
    cases h
    exact ⟨fun _ => nofun, fun _ _ => rfl⟩
  | cons p rest ih =>
    rw [fillActiveChannels] at h
    split at h
    · next hpos =>
      split at h
      · cases h
      · next c hfind =>
        obtain ⟨x, hkey, h⟩ := exists_of_bind_eq_ok h
        obtain ⟨⟨r, l⟩, hrest, h⟩ := exists_of_bind_eq_ok h
        cases h
        obtain ⟨hevents, hother⟩ := ih hrest
        refine ⟨fun hnodup d hd => ?_, fun d hd => ?_⟩
        · obtain ⟨hc, hnodup⟩ := List.nodup_cons.mp hnodup
          rcases List.mem_cons.mp hd with rfl | hd
          · refine ⟨p, List.mem_cons_self, hpos, (beq_iff_eq.mp (of_check hkey)).symm, ?_⟩
            rw [hother d hc, Function.update_self]
          · obtain ⟨q, hq, hreported⟩ := hevents hnodup d hd
            exact ⟨q, List.mem_cons_of_mem _ hq, hreported⟩
        · rw [List.mem_cons, not_or] at hd
          rw [hother d hd.2, Function.update_of_ne hd.1]
    · obtain ⟨hevents, hother⟩ := ih h
      refine ⟨fun hnodup d hd => ?_, hother⟩
      obtain ⟨q, hq, hreported⟩ := hevents hnodup d hd
      exact ⟨q, List.mem_cons_of_mem _ hq, hreported⟩

/-- The extension of a `short` is reported for the same interest. -/
theorem reported_signExtend {e : BitVec 32} (he : e ∈ Channel.masks) {x : BitVec 16}
    (hpos : 0 < x.toInt) (hasked : Mask.Within x (e.setWidth 16 ||| pollUnasked)) :
    Channel.Reported e (x.signExtend 32) := by
  constructor
  · intro hzero
    have hint := congrArg BitVec.toInt hzero
    rw [BitVec.toInt_signExtend_of_le (by decide)] at hint
    rw [hint] at hpos
    cases hpos
  · refine (hasked.signExtend (by decide) 32).trans ?_
    rcases Channel.mem_masks.mp he with rfl | rfl | rfl | rfl <;> decide

/-- `Asked`, of what `poll` answers. -/
def AskedFor (s : PollerState Ch (PollPoller Ch)) : Option (ℕ → BitVec 16) → Prop
  | none => True
  | some answer => Asked s answer

/-- A slot with an event, and the channel whose file descriptor it has. -/
def HasEvent (s : PollerState Ch (PollPoller Ch)) (a : Option (ℕ → BitVec 16)) (c : Ch)
    (revents : BitVec 32) : Prop :=
  ∃ answer i p, a = some answer ∧ s.poller.pollfds[i]? = some p ∧ find s.poller.channels p.fd =
    some c ∧ answer i ≠ 0 ∧ revents = (answer i).signExtend 32

section Fill

variable {s : PollerState Ch (PollPoller Ch)} {answer : ℕ → BitVec 16} {active : List Ch}
variable {revents revents' : Ch → BitVec 32}

/-- The channel of a slot with an event becomes active. -/
theorem Invariant.mem_of_fill (inv : Invariant fd s) (ha : Answers s (some answer))
    (hasked : Asked s answer) (hfill : fillActiveChannels fd s.poller.channels
      (PollPoller.setRevents s answer).poller.pollfds revents = .ok (revents', active))
    {c : Ch} {r : BitVec 32} (h : HasEvent s (some answer) c r) : c ∈ active := by
  obtain ⟨_, i, p, hsome, hi, hfind, hne, -⟩ := h
  cases hsome
  obtain ⟨_, _, hfill', hforall⟩ := inv.fillActiveChannels_reported ha hasked revents
  cases hfill.symm.trans hfill'
  rw [find] at hfind
  split at hfind
  · next hkey =>
    have hmem : { p with revents := answer i } ∈
        (PollPoller.setRevents s answer).poller.pollfds.filter fun p => p.revents ≠ 0 ∧ 0 ≤ p.fd :=
      List.mem_filter.mpr ⟨List.mem_of_getElem? (getElem?_setRevents.mpr ⟨p, hi, rfl⟩),
        decide_eq_true ⟨hne, hkey⟩⟩
    obtain ⟨d, hd, hchannels, -⟩ := exists_of_forall₂ hforall.flip hmem
    cases hfind.symm.trans hchannels
    exact hd
  · cases hfind

/-- An active channel is that of a slot with an event. -/
theorem Invariant.hasEvent_of_fill (inv : Invariant fd s) (hasked : Asked s answer)
    (hfill : fillActiveChannels fd s.poller.channels
      (PollPoller.setRevents s answer).poller.pollfds revents = .ok (revents', active))
    (hnodup : active.Nodup) {c : Ch} (hc : c ∈ active)
    (hself : s.poller.channels (fd c) = some c) :
    HasEvent s (some answer) c (revents' c) ∧
      Channel.Reported (s.channel c).events (revents' c) := by
  obtain ⟨q, hq, hpos, hfd, hrevents⟩ := (revents_of_fill hfill).1 hnodup c hc
  obtain ⟨i, hi⟩ := List.mem_iff_getElem?.mp hq
  obtain ⟨p, hp, rfl⟩ := getElem?_setRevents.mp hi
  replace hfd : p.fd = fd c := hfd
  replace hpos : 0 < (answer i).toInt := hpos
  obtain ⟨d, hd, -, hslot⟩ := inv.of_pollfds hp
  have hkey := hslot.key
  rw [hfd, if_neg (by omega)] at hkey
  obtain rfl := Poller.eq_of_fd hself hd (Int.ofNat.inj hkey)
  have hmask := hasked i p hp
  rw [hslot.events_eq] at hmask
  rw [hrevents]
  refine ⟨⟨answer, i, p, rfl, hp, ?_, ?_, rfl⟩,
    reported_signExtend (s.channel c).masked hpos hmask⟩
  · rw [hfd, find, if_pos (Int.natCast_nonneg _), Int.toNat_natCast, hself]
  · intro hzero
    rw [hzero] at hpos
    cases hpos

end Fill

theorem reports (fd : Ch → ℕ) :
    ((pollDemultiplexer fd).restrict AskedFor).Reports (Invariant fd) HasEvent := by
  intro s wait revents a p inv ha hp
  obtain ⟨q, hq, -, -, hnodup, hregistered⟩ := (sound fd).poll inv ha.1
  cases hq.symm.trans hp
  replace hp : PollPoller.poll fd s revents a = .ok p := hp
  cases a with
  | none =>
    cases hp
    refine ⟨fun c r hr => ?_, fun c hc => absurd hc List.not_mem_nil⟩
    obtain ⟨_, _, _, hsome, -⟩ := hr
    cases hsome
  | some answer =>
    rw [PollPoller.poll] at hp
    dsimp only at hp
    split at hp
    · obtain ⟨⟨revents', active⟩, hfill, hp⟩ := exists_of_bind_eq_ok hp
      cases hp
      exact ⟨fun c r => inv.mem_of_fill ha.1 ha.2 hfill, fun c hc =>
        inv.hasEvent_of_fill ha.2 hfill hnodup hc (of_decide_eq_true (hregistered c hc))⟩
    · next hpos =>
      cases hp
      refine ⟨fun c r hr => ?_, fun c hc => absurd hc List.not_mem_nil⟩
      obtain ⟨_, i, p, hsome, hi, -, hne, -⟩ := hr
      cases hsome
      refine absurd (List.countP_pos_iff.mpr ⟨{ p with revents := answer i }, ?_, ?_⟩) hpos
      · exact List.mem_of_getElem? (getElem?_setRevents.mpr ⟨p, hi, rfl⟩)
      · exact decide_eq_true hne

end PollPoller

/-- **From the kernel to the callbacks.** Let handlers and functors call any operations of any
channels, in any run of `loop` that fails no `assert`, over `EPollPoller` or over `PollPoller`
and a kernel that reports what it was asked for. Then every channel with an event is handled,
once and in order, by exactly the callbacks that are set and that its `revents_` ask for; none
is told to read or to write that had not asked for it when `poll` was called. -/
theorem reported_events_handled (T F : Type) {C : Type} [DecidableEq T] [DecidableEq C]
    (fd : ActiveChannel C → ℕ) :
    Dispatcher.HandlesReported T F ((ePollDemultiplexer fd).restrict EPollPoller.Asked)
        EPollPoller.HasEvent ∧
      Dispatcher.HandlesReported T F ((pollDemultiplexer fd).restrict PollPoller.AskedFor)
        PollPoller.HasEvent :=
  ⟨Dispatcher.handlesReported ((EPollPoller.sound fd).restrict _) (EPollPoller.reports fd),
    Dispatcher.handlesReported ((PollPoller.sound fd).restrict _) (PollPoller.reports fd)⟩

/-- A channel with the file descriptor of a removed one has something to read. -/
theorem reported_events_handled_shared :
    ∃ d : Dispatcher Unit Unit (Option Bool) (PollPoller (ActiveChannel (Option Bool))) PUnit,
      d.loop.pc = .handling (some (some false)) [] ∧
      d.activeChannels = [.channel (some false)] ∧
      (Channel.handleEvent none true (fun _ => true)
        (d.revents (.channel (some false)))).filterMap Channel.Handled.callback? = [.read] := by
  let D := (pollDemultiplexer sharedFd).restrict PollPoller.AskedFor
  have hanswers : ∀ s : PollerState (ActiveChannel (Option Bool)) (PollPoller _),
      s.poller.pollfds = [⟨5, 3, 0⟩] → D.answers s ⟨⟩ (some fun _ => 1) := by
    intro s hpollfds
    have hslot : ∀ (i : ℕ) p, s.poller.pollfds[i]? = some p → p = ⟨5, 3, 0⟩ :=
      fun i p hp => List.mem_singleton.mp (hpollfds ▸ List.mem_of_getElem? hp)
    refine ⟨fun i p hp hneg => ?_, fun i p hp => ?_⟩
    · rw [hslot i p hp] at hneg
      cases hneg
    · rw [hslot i p hp]
      show 1 &&& ~~~(3 ||| PollPoller.pollUnasked) = 0
      decide
  obtain ⟨d₁, d, hv, hu, hpc, hrevents⟩ : ∃ d₁ d, (Dispatcher.machine Unit Unit D).Run (.fresh D)
      [.call (.channel (some true)) (.change .enableReading),
        .call (.channel (some true)) (.change .disableAll),
        .call (.channel (some true)) .remove,
        .call (.channel (some false)) (.change .enableReading), .enter, .loop .test] d₁ ∧
      (Dispatcher.machine Unit Unit D).Run d₁
        [.poll (some fun _ => 1), .loop (.handleEvent (some false))] d ∧
      d.loop.pc = .handling (some (some false)) [] ∧ d.revents (.channel (some false)) = 1 :=
    ⟨_, _, .cons (.call (.inr rfl) rfl rfl) <| .cons (.call (.inr rfl) rfl rfl) <|
      .cons (.call (.inr rfl) rfl rfl) <| .cons (.call (.inr rfl) rfl rfl) <|
      .cons (.enter rfl) <| .single (.loop nofun (.test rfl)),
      .cons (.poll rfl (hanswers _ (by decide)) rfl) <| .single (.loop nofun (.handleEvent rfl)),
      rfl, by decide⟩
  obtain ⟨-, hactive, -, hhandled⟩ := (reported_events_handled Unit Unit sharedFd).2 _ _ _ _ _ _
    (Dispatcher.fresh_init D) hv hu (by simp)
  replace hactive : d.activeChannels = [.channel (some false)] := by
    rw [hactive, Dispatcher.pending, hpc]
    rfl
  obtain ⟨-, hcallbacks, -⟩ := hhandled (.channel (some false)) (by simp [hactive])
  exact ⟨d, hpc, hactive, by rw [hcallbacks, hrevents]; decide⟩

end Dxian
