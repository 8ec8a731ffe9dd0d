import Dxian.Net.Dispatch.Invariant
import Dxian.Net.Poller.EPoll
import Dxian.Net.Poller.Poll

/-!
# What the pollers report

`EPollPoller` takes the channels from the pointers that it has registered with
`epoll_ctl`. `PollPoller` goes through its vector of `pollfd`s and looks the file
descriptors up. Both fail an `assert` on a channel that is not in `channels_`.

## Main results

- `EPollPoller.sound`, `PollPoller.sound` — neither fails, and neither reports a
  channel twice
- `registered_channels_dispatched` — the channels that the loop hands the control to
-/

namespace Dxian

open Transition

variable {Ch : Type}

/-! ## `epoll_wait` -/

namespace EPollPoller

def kInitEventListSize : ℕ := 16

/-- What `epoll_wait` may answer, with room for `size` events: some of the entries of
the interest list, each once, with the pointers that they have there. `none` is the
answer -1. -/
def Answers (s : PollerState Ch (EPollPoller Ch)) (size : ℕ) :
    Option (List (BitVec 32 × Ch)) → Prop
  | none => True
  | some events => events.length ≤ size ∧ ∃ fds : List ℕ, fds.Nodup ∧
      List.Forall₂ (fun k e => ∃ m, s.poller.interestList k = some (m, e.2)) fds events

/-- An entry of the interest list belongs to a registered channel. -/
theorem Invariant.of_interestList {fd : Ch → ℕ} {s : PollerState Ch (EPollPoller Ch)}
    (inv : Invariant fd s) {k : ℕ} {m : BitVec 32} {c : Ch}
    (h : s.poller.interestList k = some (m, c)) :
    k = fd c ∧ s.poller.channels (fd c) = some c := by
  obtain ⟨rfl, hchannels⟩ := inv.list_key k m c h
  exact ⟨rfl, hchannels⟩

/-- The pointers that `epoll_wait` answers are those of distinct registered channels. -/
theorem Invariant.of_answers {fd : Ch → ℕ} {s : PollerState Ch (EPollPoller Ch)}
    (inv : Invariant fd s) {size : ℕ} {events : List (BitVec 32 × Ch)}
    (h : Answers s size (some events)) :
    (∀ e ∈ events, s.poller.channels (fd e.2) = some e.2) ∧ (events.map Prod.snd).Nodup := by
  obtain ⟨-, fds, hnodup, hentries⟩ := h
  have hfds : fds = (events.map Prod.snd).map fd ∧
      ∀ e ∈ events, s.poller.channels (fd e.2) = some e.2 := by
    clear hnodup
    induction hentries with
    | nil => exact ⟨rfl, nofun⟩
    | cons hk _ ih =>
      obtain ⟨m, hm⟩ := hk
      obtain ⟨hkey, hchannels⟩ := inv.of_interestList hm
      exact ⟨by rw [List.map_cons, List.map_cons, ← ih.1, ← hkey],
        List.forall_mem_cons.mpr ⟨hchannels, ih.2⟩⟩
  rw [hfds.1] at hnodup
  exact ⟨hfds.2, hnodup.of_map fd⟩

variable [DecidableEq Ch] (fd : Ch → ℕ)

/-- The loop of `EPollPoller::fillActiveChannels`. -/
def fillActiveChannels (channels : ℕ → Option Ch) :
    List (BitVec 32 × Ch) → (Ch → BitVec 32) → Except Fault ((Ch → BitVec 32) × List Ch)
  | [], revents => .ok (revents, [])
  | (events, c) :: rest, revents => do
    check (channels (fd c)).isSome
    check (channels (fd c) == some c)
    let (revents, activeChannels) ←
      fillActiveChannels channels rest (Function.update revents c events)
    return (revents, c :: activeChannels)

/-- `EPollPoller::poll`; `size` is the size of `events_`. -/
def poll (s : PollerState Ch (EPollPoller Ch)) (size : ℕ) (revents : Ch → BitVec 32) :
    Option (List (BitVec 32 × Ch)) → Except Fault (Polled Ch (EPollPoller Ch) ℕ)
  | none => .ok ⟨s, size, revents, []⟩
  | some events =>
    if 0 < events.length then do
      check (events.length ≤ size)
      let (revents, activeChannels) ← fillActiveChannels fd s.poller.channels events revents
      let size := if events.length = size then size * 2 else size
      return ⟨s, size, revents, activeChannels⟩
    else .ok ⟨s, size, revents, []⟩

end EPollPoller

/-- `EPollPoller` with its `poll`. -/
def ePollDemultiplexer [DecidableEq Ch] (fd : Ch → ℕ) :
    Demultiplexer Ch (EPollPoller Ch) ℕ (Option (List (BitVec 32 × Ch))) where
  toPoller := ePollPoller fd
  emptyWait := EPollPoller.kInitEventListSize
  answers := EPollPoller.Answers
  poll := EPollPoller.poll fd

namespace EPollPoller

variable [DecidableEq Ch] {fd : Ch → ℕ}

/-- Registered channels fail no `assert`. -/
theorem fillActiveChannels_eq {channels : ℕ → Option Ch} (events : List (BitVec 32 × Ch))
    (h : ∀ e ∈ events, channels (fd e.2) = some e.2) (revents : Ch → BitVec 32) :
    ∃ revents', fillActiveChannels fd channels events revents =
      .ok (revents', events.map Prod.snd) := by
  induction events generalizing revents with
  | nil => exact ⟨revents, rfl⟩
  | cons e rest ih =>
    obtain ⟨mask, c⟩ := e
    have hc : channels (fd c) = some c := h (mask, c) List.mem_cons_self
    obtain ⟨revents', hrest⟩ := ih (fun e he => h e (List.mem_cons_of_mem _ he))
      (Function.update revents c mask)
    exact ⟨revents', by simp [fillActiveChannels, hc, hrest, bind, Except.bind, pure, Except.pure]⟩

theorem sound (fd : Ch → ℕ) : (ePollDemultiplexer fd).Sound fd (Invariant fd) where
  refines := refines fd
  poll {s size revents a} inv ha := by
    cases a with
    | none => exact ⟨_, rfl, inv, rfl, .nil, nofun⟩
    | some events =>
      obtain ⟨hregistered, hnodup⟩ := inv.of_answers ha
      obtain ⟨revents', hfill⟩ := fillActiveChannels_eq events hregistered revents
      have hpoll : ∃ p, EPollPoller.poll fd s size revents (some events) = .ok p ∧
          p.pollers = s ∧ p.activeChannels = events.map Prod.snd := by
        by_cases hpos : 0 < events.length
        · simp [EPollPoller.poll, hpos, ha.1, hfill, bind, Except.bind, pure, Except.pure]
        · have hnil : events = [] := by simpa using hpos
          simp [EPollPoller.poll, hnil]
      obtain ⟨p, hp, hs, hactive⟩ := hpoll
      refine ⟨p, hp, hs ▸ inv, by rw [hs], hactive ▸ hnodup, fun c hc => ?_⟩
      rw [hactive] at hc
      obtain ⟨e, he, rfl⟩ := List.mem_map.mp hc
      exact decide_eq_true (hregistered e he)

end EPollPoller

/-! ## `poll` -/

namespace PollPoller

/-- What `poll` may answer: the `revents` of the slots, zero where `fd` is negative.
`none` is the answer -1. -/
def Answers (s : PollerState Ch (PollPoller Ch)) : Option (ℕ → BitVec 16) → Prop
  | none => True
  | some answer => ∀ i p, s.poller.pollfds[i]? = some p → p.fd < 0 → answer i = 0

/-- `poll` writes to the vector. -/
def setRevents (s : PollerState Ch (PollPoller Ch)) (answer : ℕ → BitVec 16) :
    PollerState Ch (PollPoller Ch) :=
  { s with poller := { s.poller with
    pollfds := s.poller.pollfds.mapIdx fun i p => { p with revents := answer i } } }

/-- `channels_.find`. -/
def find (channels : ℕ → Option Ch) (k : ℤ) : Option Ch :=
  if 0 ≤ k then channels k.toNat else none

section Slots

variable {fd : Ch → ℕ} {s : PollerState Ch (PollPoller Ch)} {answer : ℕ → BitVec 16}

theorem getElem?_setRevents {i : ℕ} {q : PollFd} :
    (setRevents s answer).poller.pollfds[i]? = some q ↔
      ∃ p, s.poller.pollfds[i]? = some p ∧ q = { p with revents := answer i } := by
  simp [setRevents, eq_comm]

/-- The invariant says nothing about `revents`. -/
theorem Invariant.setRevents (inv : Invariant fd s) (answer : ℕ → BitVec 16) :
    Invariant fd (setRevents s answer) where
  channels_key := inv.channels_key
  slot c hc := by
    obtain ⟨p, hp, hslot⟩ := inv.slot c hc
    obtain ⟨i, hi, hget⟩ := slot?_eq_some.mp hp
    exact ⟨{ p with revents := answer i },
      slot?_eq_some.mpr ⟨i, hi, getElem?_setRevents.mpr ⟨p, hget, rfl⟩⟩,
      hslot.fd_eq, hslot.events_eq⟩
  owner i hi := by
    refine inv.owner i ?_
    simpa [PollPoller.setRevents] using hi
  fresh := inv.fresh

/-- The channel that a slot belongs to. -/
theorem Invariant.of_pollfds (inv : Invariant fd s) {i : ℕ} {p : PollFd}
    (h : s.poller.pollfds[i]? = some p) :
    ∃ c, s.poller.channels (fd c) = some c ∧ (s.channel c).index = i ∧ IsSlot fd s c p := by
  obtain ⟨c, hc, hindex⟩ := inv.owner i (List.getElem?_eq_some_iff.mp h).1
  obtain ⟨q, hq, hslot⟩ := inv.slot c hc
  obtain ⟨j, hj, hget⟩ := slot?_eq_some.mp hq
  obtain rfl : i = j := by omega
  cases h.symm.trans hget
  exact ⟨c, hc, hindex, hslot⟩

/-- No two slots have the same `fd`. -/
theorem Invariant.nodup_fd (inv : Invariant fd s) : (s.poller.pollfds.map PollFd.fd).Nodup := by
  rw [List.nodup_iff_getElem?_ne_getElem?]
  intro i j hij hj heq
  rw [List.length_map] at hj
  have hi : i < s.poller.pollfds.length := by omega
  rw [List.getElem?_map, List.getElem?_map, List.getElem?_eq_getElem hi,
    List.getElem?_eq_getElem hj] at heq
  obtain ⟨c, hc, hci, hslot⟩ := inv.of_pollfds (List.getElem?_eq_getElem hi)
  obtain ⟨d, hd, hdj, hslot'⟩ := inv.of_pollfds (List.getElem?_eq_getElem hj)
  have hkey := hslot.key
  rw [show s.poller.pollfds[i].fd = s.poller.pollfds[j].fd from Option.some.inj heq,
    hslot'.key] at hkey
  rw [Poller.eq_of_fd hd hc (Int.ofNat.inj hkey)] at hdj
  omega

/-- A slot where `poll` reports an event belongs to a registered channel. -/
theorem Invariant.of_revents (inv : Invariant fd s) (ha : Answers s (some answer)) {q : PollFd}
    (hq : q ∈ (PollPoller.setRevents s answer).poller.pollfds) (hpos : 0 < q.revents.toInt) :
    ∃ c, q.fd = fd c ∧ s.poller.channels (fd c) = some c := by
  obtain ⟨i, hi⟩ := List.mem_iff_getElem?.mp hq
  obtain ⟨p, hp, rfl⟩ := getElem?_setRevents.mp hi
  obtain ⟨c, hc, -, hslot⟩ := inv.of_pollfds hp
  rcases hslot.fd_eq with heq | ⟨heq, -⟩
  · exact ⟨c, heq, hc⟩
  · have hzero : answer i = 0 := ha i p hp (by omega)
    rw [show ({ p with revents := answer i } : PollFd).revents = answer i from rfl, hzero] at hpos
    cases hpos

end Slots

variable [DecidableEq Ch] (fd : Ch → ℕ)

/-- The loop of `PollPoller::fillActiveChannels`. -/
def fillActiveChannels (channels : ℕ → Option Ch) :
    List PollFd → (Ch → BitVec 32) → Except Fault ((Ch → BitVec 32) × List Ch)
  | [], revents => .ok (revents, [])
  | pfd :: rest, revents =>
    if 0 < pfd.revents.toInt then
      match find channels pfd.fd with
      | none => .error .assertion
      | some c => do
        check ((fd c : ℤ) == pfd.fd)
        let (revents, activeChannels) ← fillActiveChannels channels rest
          (Function.update revents c (pfd.revents.signExtend 32))
        return (revents, c :: activeChannels)
    else fillActiveChannels channels rest revents

/-- `PollPoller::poll`. -/
def poll (s : PollerState Ch (PollPoller Ch)) (revents : Ch → BitVec 32) :
    Option (ℕ → BitVec 16) → Except Fault (Polled Ch (PollPoller Ch) PUnit)
  | none => .ok ⟨s, ⟨⟩, revents, []⟩
  | some answer =>
    let s := setRevents s answer
    let numEvents := s.poller.pollfds.countP (·.revents ≠ 0)
    if 0 < numEvents then do
      let (revents, activeChannels) ←
        fillActiveChannels fd s.poller.channels s.poller.pollfds revents
      return ⟨s, ⟨⟩, revents, activeChannels⟩
    else .ok ⟨s, ⟨⟩, revents, []⟩

end PollPoller

/-- `PollPoller` with its `poll`. -/
def pollDemultiplexer [DecidableEq Ch] (fd : Ch → ℕ) :
    Demultiplexer Ch (PollPoller Ch) PUnit (Option (ℕ → BitVec 16)) where
  toPoller := pollPoller fd
  emptyWait := ⟨⟩
  answers s _ := PollPoller.Answers s
  poll s _ := PollPoller.poll fd s

namespace PollPoller

variable [DecidableEq Ch] {fd : Ch → ℕ}

/-- The loop of `fillActiveChannels` takes the slots one after the other. -/
theorem fillActiveChannels_forall₂ {channels : ℕ → Option Ch} (pollfds : List PollFd)
    (h : ∀ p ∈ pollfds, 0 < p.revents.toInt → ∃ c, p.fd = fd c ∧ channels (fd c) = some c)
    (revents : Ch → BitVec 32) : ∃ revents' activeChannels,
      fillActiveChannels fd channels pollfds revents = .ok (revents', activeChannels) ∧
      List.Forall₂ (fun (p : PollFd) c => p.fd = fd c ∧ channels (fd c) = some c)
        (pollfds.filter fun p => 0 < p.revents.toInt) activeChannels := by
  induction pollfds generalizing revents with
  | nil => exact ⟨revents, [], rfl, .nil⟩
  | cons p rest ih =>
    have hrest := ih fun q hq => h q (List.mem_cons_of_mem _ hq)
    by_cases hpos : 0 < p.revents.toInt
    · obtain ⟨c, hp, hc⟩ := h p List.mem_cons_self hpos
      obtain ⟨revents', active, hfill, hactive⟩ :=
        hrest (Function.update revents c (p.revents.signExtend 32))
      have hfind : find channels (fd c) = some c := by simp [find, hc]
      refine ⟨revents', c :: active, ?_, ?_⟩
      · simp [fillActiveChannels, hpos, hfind, hp, hfill, bind, Except.bind, pure, Except.pure]
      · rw [List.filter_cons_of_pos (by simpa using hpos)]
        exact .cons ⟨hp, hc⟩ hactive
    · obtain ⟨revents', active, hfill, hactive⟩ := hrest revents
      refine ⟨revents', active, by rw [fillActiveChannels, if_neg hpos, hfill], ?_⟩
      rw [List.filter_cons_of_neg (by simpa using hpos)]
      exact hactive

/-- Slots of registered channels fail no `assert`. -/
theorem fillActiveChannels_eq {channels : ℕ → Option Ch} (pollfds : List PollFd)
    (h : ∀ p ∈ pollfds, 0 < p.revents.toInt → ∃ c, p.fd = fd c ∧ channels (fd c) = some c)
    (revents : Ch → BitVec 32) : ∃ revents' activeChannels,
      fillActiveChannels fd channels pollfds revents = .ok (revents', activeChannels) ∧
      List.Sublist (activeChannels.map fun c => (fd c : ℤ)) (pollfds.map PollFd.fd) ∧
      ∀ c ∈ activeChannels, channels (fd c) = some c := by
  obtain ⟨revents', active, hfill, hactive⟩ := fillActiveChannels_forall₂ pollfds h revents
  have hflip : List.Forall₂ (fun c (p : PollFd) => channels (fd c) = some c ∧ (fd c : ℤ) = p.fd)
      active (pollfds.filter fun p => 0 < p.revents.toInt) :=
    (hactive.imp fun _ _ h => ⟨h.2, h.1.symm⟩).flip
  obtain ⟨hregistered, hkeys⟩ := (List.forall₂_and_left _ _).mp hflip
  have hfds : active.map (fun c => (fd c : ℤ)) =
      (pollfds.filter fun p => 0 < p.revents.toInt).map PollFd.fd := by
    rw [← List.forall₂_eq_eq_eq, List.forall₂_map_left_iff, List.forall₂_map_right_iff]
    exact hkeys
  refine ⟨revents', active, hfill, ?_, hregistered⟩
  rw [hfds]
  exact List.filter_sublist.map _

theorem sound (fd : Ch → ℕ) : (pollDemultiplexer fd).Sound fd (Invariant fd) where
  refines := refines fd
  poll {s _ revents a} inv ha := by
    cases a with
    | none => exact ⟨_, rfl, inv, rfl, .nil, nofun⟩
    | some answer =>
      have inv' := inv.setRevents answer
      by_cases hpos : 0 < (setRevents s answer).poller.pollfds.countP (·.revents ≠ 0)
      · obtain ⟨revents', active, hfill, hsub, hactive⟩ := fillActiveChannels_eq
          (setRevents s answer).poller.pollfds (fun q hq => inv.of_revents ha hq) revents
        refine ⟨⟨setRevents s answer, ⟨⟩, revents', active⟩, ?_, inv', rfl, ?_, fun c hc => ?_⟩
        · show PollPoller.poll fd s revents (some answer) = _
          rw [PollPoller.poll, if_pos hpos]
          rw [show (setRevents s answer).poller.channels = s.poller.channels from rfl, hfill]
          rfl
        · exact (hsub.nodup inv'.nodup_fd).of_map _
        · exact decide_eq_true (hactive c hc)
      · exact ⟨⟨setRevents s answer, ⟨⟩, revents, []⟩, if_neg hpos, inv', rfl, .nil, nofun⟩

end PollPoller

/-! ## The loop over either poller -/

/-- **Whom the loop dispatches to.** Let handlers and functors call any operations of any
channels of the loop, in any run of `loop`, over `EPollPoller` or over `PollPoller`, that
fails no `assert`. Then `poll` fails none either, and a channel that gets the control is
registered, stands once among the active channels, and has not been removed since the
last `poll`. The channels may have the same file descriptors, one after the other. -/
theorem registered_channels_dispatched (T F : Type) {C : Type} [DecidableEq T] [DecidableEq C]
    (fd : ActiveChannel C → ℕ) : Dispatcher.Dispatches T F (ePollDemultiplexer fd) fd ∧
      Dispatcher.Dispatches T F (pollDemultiplexer fd) fd :=
  ⟨Dispatcher.dispatches (EPollPoller.sound fd), Dispatcher.dispatches (PollPoller.sound fd)⟩

/-- The wakeup channel, the one of the timerfd, and two that get the same number. -/
def sharedFd : ActiveChannel (Option Bool) → ℕ
  | .wakeupChannel => 3
  | .channel none => 4
  | .channel (some _) => 5

/-- A handler removes its channel, and a new one gets the file descriptor and the next event. -/
theorem registered_channels_dispatched_shared :
    ∃ (d d' : Dispatcher Unit Unit (Option Bool) (EPollPoller (ActiveChannel (Option Bool))) ℕ)
      (w : List (Dispatcher.Action Unit Unit (Option Bool) _)),
      (Dispatcher.machine Unit Unit (ePollDemultiplexer sharedFd)).Run
        (.fresh (ePollDemultiplexer sharedFd)) w d ∧
      .call (.channel (some true)) .remove ∈ w ∧
      Dispatcher.Step (ePollDemultiplexer sharedFd) d (.loop (.handleEvent (some false))) (.ok d') ∧
      (ePollDemultiplexer sharedFd).hasChannel sharedFd d.pollers (.channel (some false)) =
        true := by
  obtain ⟨d, hrun, hpc⟩ : ∃ d,
      (Dispatcher.machine Unit Unit (ePollDemultiplexer sharedFd)).Run
        (.fresh (ePollDemultiplexer sharedFd))
      [.call (.channel (some true)) (.change .enableReading), .enter, .loop .test,
        .poll (some [(1, .channel (some true))]), .loop (.handleEvent (some true)),
        .call (.channel (some true)) (.change .disableAll),
        .call (.channel (some true)) .remove,
        .call (.channel (some false)) (.change .enableReading), .loop .finishEvent,
        .loop .doPendingFunctors, .loop .swap, .loop .finishFunctors, .loop .test,
        .poll (some [(1, .channel (some false))])] d ∧
      d.loop.pc = .handling none [.channel (some false)] :=
    ⟨_, .cons (.call (.inr rfl) rfl rfl) <| .cons (.enter rfl) <|
      .cons (.loop nofun (.test rfl)) <|
      .cons (.poll rfl ⟨by decide, [5], by simp, .cons ⟨_, rfl⟩ .nil⟩ rfl) <|
      .cons (.loop nofun (.handleEvent rfl)) <| .cons (.call (.inl trivial) rfl rfl) <|
      .cons (.call (.inl trivial) rfl rfl) <| .cons (.call (.inl trivial) rfl rfl) <|
      .cons (.loop nofun (.finishEvent rfl rfl)) <| .cons (.loop nofun (.doPendingFunctors rfl)) <|
      .cons (.loop nofun (.swap rfl)) <| .cons (.loop nofun (.finishFunctors rfl)) <|
      .cons (.loop nofun (.test rfl)) <|
      .single (.poll rfl ⟨by decide, [5], by simp, .cons ⟨_, rfl⟩ .nil⟩ rfl), rfl⟩
  have hstep := Dispatcher.Step.loop (D := ePollDemultiplexer sharedFd)
    (x := .handleEvent (some false)) nofun (.handleEvent hpc)
  have hall := (registered_channels_dispatched Unit Unit sharedFd).1 _ _ _
    (Dispatcher.fresh_init _) hrun
  exact ⟨d, _, _, hrun, by simp, hstep, (hall.2 _ _ hstep _ rfl).1⟩

end Dxian
