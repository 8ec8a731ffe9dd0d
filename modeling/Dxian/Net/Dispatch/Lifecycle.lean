import Dxian.Net.Dispatch.Events

/-!
# From the constructor of the loop to its destructor

The constructor of `EventLoop` registers the channel of the timerfd and the wakeup channel;
the destructor disables and removes them, after `loop` has returned, and leaves the channels
of the users alone. `~Channel` asserts that its channel is not registered.

## Main results

- `Poller.KeepsAdded` — `addedToLoop_` says whether a channel is registered
- `destructor_succeeds` — the destructor fails no `assert`, and what it leaves registered
-/

namespace Dxian

open Transition

namespace Poller

variable {Ch P : Type} [DecidableEq Ch] {M : Poller Ch P} {fd : Ch → ℕ}
variable {I : PollerState Ch P → Prop} {s s' : PollerState Ch P}

/-- Only `Channel` itself writes to `addedToLoop_`. -/
structure KeepsAdded (M : Poller Ch P) : Prop where
  updateChannel : ∀ {s c s'}, M.updateChannel s c = .ok s' →
    ∀ d, (s'.channel d).addedToLoop = (s.channel d).addedToLoop
  removeChannel : ∀ {s c s'}, M.removeChannel s c = .ok s' →
    ∀ d, (s'.channel d).addedToLoop = (s.channel d).addedToLoop

/-- `addedToLoop_` says whether the channel is registered. -/
def Added (M : Poller Ch P) (fd : Ch → ℕ) (s : PollerState Ch P) : Prop :=
  ∀ c, (s.channel c).addedToLoop = M.hasChannel fd s c

theorem added_set {c : Ch} {x : Channel} (d : Ch) : ((s.set c x).channel d).addedToLoop =
    Function.update (fun d => (s.channel d).addedToLoop) c x.addedToLoop d := by
  rw [PollerState.set_channel]
  by_cases hd : d = c
  · rw [hd, Function.update_self, Function.update_self]
  · rw [Function.update_of_ne hd, Function.update_of_ne hd]

theorem KeepsAdded.call (h : M.KeepsAdded) (hrefines : M.Refines fd I) (hI : I s)
    (hadded : M.Added fd s) {x : Ch × Channel.Op} (hcall : M.call s x = .ok s') :
    M.Added fd s' := by
  obtain ⟨c, op⟩ := x
  intro d
  have hregistered : M.hasChannel fd s' d = ((M.interest fd s).call (c, op)).registered d :=
    congrFun (congrArg Interest.registered (hrefines.call hI hcall).2) d
  have hfun : (fun d => (s.channel d).addedToLoop) = (M.interest fd s).registered :=
    funext hadded
  cases op with
  | change x =>
    rw [call_change] at hcall
    rw [h.updateChannel hcall, added_set, hregistered, hfun]
    rfl
  | remove =>
    rw [call_remove _ (isNoneEvent_of_call_remove hcall)] at hcall
    rw [h.removeChannel hcall, added_set, hregistered, hfun]
    rfl

end Poller

namespace PollPoller

variable {Ch : Type} [DecidableEq Ch] {fd : Ch → ℕ}

theorem addedToLoop_setIndex {s : PollerState Ch (PollPoller Ch)} {c : Ch} {idx : ℤ} (d : Ch) :
    ((s.setIndex c idx).channel d).addedToLoop = (s.channel d).addedToLoop := by
  rw [PollerState.setIndex_channel]
  by_cases hd : d = c
  · rw [hd, Function.update_self]
  · rw [Function.update_of_ne hd]

/-- `PollPoller` writes to `index_` only. -/
theorem keepsAdded (fd : Ch → ℕ) : (pollPoller fd).KeepsAdded where
  updateChannel {s c s'} h d := by
    replace h : PollPoller.updateChannel fd s c = .ok s' := h
    unfold PollPoller.updateChannel at h
    split at h
    · obtain ⟨_, -, h⟩ := exists_of_bind_eq_ok h
      cases h
      exact addedToLoop_setIndex d
    · obtain ⟨_, -, h⟩ := exists_of_bind_eq_ok h
      obtain ⟨_, -, h⟩ := exists_of_bind_eq_ok h
      obtain ⟨_, -, h⟩ := exists_of_bind_eq_ok h
      obtain ⟨_, -, h⟩ := exists_of_bind_eq_ok h
      obtain ⟨_, -, h⟩ := exists_of_bind_eq_ok h
      cases h
      rfl
  removeChannel {s c s'} h d := by
    replace h : PollPoller.removeChannel fd s c = .ok s' := h
    unfold PollPoller.removeChannel at h
    obtain ⟨_, -, h⟩ := exists_of_bind_eq_ok h
    obtain ⟨_, -, h⟩ := exists_of_bind_eq_ok h
    obtain ⟨_, -, h⟩ := exists_of_bind_eq_ok h
    obtain ⟨_, -, h⟩ := exists_of_bind_eq_ok h
    obtain ⟨_, -, h⟩ := exists_of_bind_eq_ok h
    obtain ⟨_, -, h⟩ := exists_of_bind_eq_ok h
    obtain ⟨_, -, h⟩ := exists_of_bind_eq_ok h
    dsimp only at h
    split at h
    · cases h
      rfl
    · obtain ⟨_, -, h⟩ := exists_of_bind_eq_ok h
      split at h
      · cases h
      · cases h
        exact addedToLoop_setIndex d

end PollPoller

/-! ## The registration of one channel -/

namespace Demultiplexer

variable {Ch P X A : Type} [DecidableEq Ch] {D : Demultiplexer Ch P X A} {fd : Ch → ℕ}
variable {I : PollerState Ch P → Prop}

/-- What the destructor needs to know of a poller. -/
structure Removable (D : Demultiplexer Ch P X A) (fd : Ch → ℕ) (I : PollerState Ch P → Prop) :
    Prop where
  added : ∀ {s}, I s → D.Added fd s
  remove : ∀ {s c}, I s → D.hasChannel fd s c = true → ∃ s' s'',
    D.call s (c, .change .disableAll) = .ok s' ∧ D.call s' (c, .remove) = .ok s''

/-- `poll` does not write to `addedToLoop_` either. -/
theorem Sound.added (h : D.Sound fd I) (hkeeps : D.KeepsAdded)
    (hpoll : ∀ {s wait revents a p}, D.poll s wait revents a = .ok p →
      p.pollers.channel = s.channel) :
    D.Sound fd fun s => I s ∧ D.Added fd s where
  refines := {
    fresh := ⟨⟨h.refines.fresh.1, fun c =>
      (congrFun (congrArg Interest.registered h.refines.fresh.2) c).symm⟩, h.refines.fresh.2⟩
    call := fun hI hcall =>
      ⟨⟨(h.refines.call hI.1 hcall).1, hkeeps.call h.refines hI.1 hI.2 hcall⟩,
        (h.refines.call hI.1 hcall).2⟩ }
  poll {s wait revents a} hI ha := by
    obtain ⟨p, hp, hIp, hinterest, hactive⟩ := @h.poll s wait revents a hI.1 ha
    refine ⟨p, hp, ⟨hIp, fun c => ?_⟩, hinterest, hactive⟩
    rw [hpoll hp, hI.2 c]
    exact (congrFun (congrArg Interest.registered hinterest) c).symm

end Demultiplexer

theorem EPollPoller.removable {Ch : Type} [DecidableEq Ch] (fd : Ch → ℕ) :
    (ePollDemultiplexer fd).Removable fd (EPollPoller.Invariant fd) where
  added {s} inv c := by
    show (s.channel c).addedToLoop = decide (s.poller.channels (fd c) = some c)
    cases inv.inStep c with
    | new _ hloop hchannels _ => rw [hloop, decide_eq_false hchannels]
    | added _ hloop hchannels _ | deleted _ hloop hchannels _ _ =>
      rw [hloop, hchannels, decide_eq_true rfl]
  remove {s c} inv hc := by
    obtain ⟨y, e, hcall, inv', hevents, -⟩ :=
      inv.call_change (.inr (of_decide_eq_true hc)) .disableAll
    obtain ⟨y', hremove, -⟩ := inv'.call_remove (c := c) (by simp)
      (by rw [EPollPoller.setAt_channel, Function.update_self, hevents]; rfl)
    exact ⟨_, _, hcall, hremove⟩

theorem PollPoller.removable {Ch : Type} [DecidableEq Ch] (fd : Ch → ℕ) :
    (pollDemultiplexer fd).Removable fd fun s =>
      PollPoller.Invariant fd s ∧ (pollPoller fd).Added fd s where
  added hI := hI.2
  remove {s c} hI hc := by
    obtain ⟨inv, -⟩ := hI
    obtain ⟨s', hcall, hafter, hslot⟩ := inv.call_registered (of_decide_eq_true hc) .disableAll
    have hchannels : s'.poller.channels (fd c) = some c := by
      rw [hafter.channels, Function.update_self]
    have hevents : (s'.channel c).events = Channel.kNoneEvent := by
      rw [hafter.events, Function.update_self]
      rfl
    have hparked : (PollPoller.slotOf fd c ((s.channel c).change .disableAll)).fd ≠ fd c := by
      rw [PollPoller.slotOf, if_pos (Channel.isNoneEvent_iff.mpr rfl)]
      show -(fd c : ℤ) - 1 ≠ fd c
      omega
    obtain ⟨s'', hremove, -⟩ := (hafter.invariant inv).call_remove hchannels hevents hslot
      hparked
    exact ⟨s', s'', hcall, hremove⟩

theorem PollPoller.sound_added {Ch : Type} [DecidableEq Ch] (fd : Ch → ℕ) :
    (pollDemultiplexer fd).Sound fd fun s =>
      PollPoller.Invariant fd s ∧ (pollPoller fd).Added fd s := by
  refine (PollPoller.sound fd).added (PollPoller.keepsAdded fd) fun {s wait revents a p} hp => ?_
  replace hp : PollPoller.poll fd s revents a = .ok p := hp
  cases a with
  | none =>
    cases hp
    rfl
  | some answer =>
    rw [PollPoller.poll] at hp
    dsimp only at hp
    split at hp
    · obtain ⟨x, -, hp⟩ := exists_of_bind_eq_ok hp
      cases hp
      rfl
    · cases hp
      rfl

/-! ## The loop -/

namespace Dispatcher

variable {T F C P X A : Type} [DecidableEq T] [DecidableEq C]
variable {D : Demultiplexer (ActiveChannel C) P X A} {fd : ActiveChannel C → ℕ}
variable {I : PollerState (ActiveChannel C) P → Prop} {d₀ d d' : Dispatcher T F C P X}
variable {v w u : List (Action T F C A)}

/-- The `eventHandling_` of a channel. -/
def handling (d : Dispatcher T F C P X) : ActiveChannel C → Bool
  | .wakeupChannel => false
  | .channel c =>
    match d.loop.pc with
    | .handling (some c') _ => c' = c
    | _ => false

/-- `Channel::~Channel`. -/
def destroyChannel (D : Demultiplexer (ActiveChannel C) P X A) (fd : ActiveChannel C → ℕ)
    (d : Dispatcher T F C P X) (c : ActiveChannel C) : Except Fault Unit := do
  check !d.handling c
  check !(d.pollers.channel c).addedToLoop
  check !D.hasChannel fd d.pollers c

/-- The operations in the constructors of `TimerQueue` and `EventLoop`. -/
def construct (timerfdChannel_ : C) : List (Action T F C A) :=
  [.call (.channel timerfdChannel_) (.change .enableReading),
    .call .wakeupChannel (.change .enableReading)]

/-- The operations in the destructors of `EventLoop` and `TimerQueue`. -/
def destruct (timerfdChannel_ : C) : List (Action T F C A) :=
  [.call .wakeupChannel (.change .disableAll), .call .wakeupChannel .remove,
    .call (.channel timerfdChannel_) (.change .disableAll),
    .call (.channel timerfdChannel_) .remove]

/-- Nobody else operates on the two channels. -/
def Private (timerfdChannel_ : C) (w : List (Action T F C A)) : Prop :=
  ∀ c op, .call c op ∈ w → c ≠ .wakeupChannel ∧ c ≠ .channel timerfdChannel_

/-- `eventHandling_` is set while the active channels are handled. -/
def Idle (d : Dispatcher T F C P X) : Prop :=
  d.eventHandling = true → ∃ current active, d.loop.pc = .handling current active

theorem Idle.step {x : Action T F C A} (h : Idle d) (hstep : Step D d x (.ok d')) : Idle d' := by
  cases hstep with
  | enter hpc =>
    intro hev
    obtain ⟨current, active, hloop⟩ := h hev
    cases hpc.symm.trans hloop
  | @loop x l hpoll hloop =>
    have hout : (∀ current active, d.loop.pc ≠ .handling current active) →
        d.eventHandling = false := by
      intro hne
      by_contra hev
      obtain ⟨current, active, hpc⟩ := h (Bool.not_eq_false _ |>.mp hev)
      exact hne current active hpc
    cases hloop with
    | poll => exact absurd rfl (hpoll _)
    | queueInLoop | quit | wakeup => exact h
    | handleRead | handleEvent | finishEvent => exact fun _ => ⟨_, _, rfl⟩
    | doPendingFunctors => nofun
    | test hpc | swap hpc | runFunctor hpc | finishFunctor hpc | finishFunctors hpc =>
      intro hev
      cases (hout (by rw [hpc]; nofun)).symm.trans hev
  | poll hpc ha hr =>
    obtain ⟨p, -, rfl⟩ := exists_of_map_eq_ok hr
    exact fun _ => ⟨none, p.activeChannels, rfl⟩
  | call hpc hcall hr =>
    obtain ⟨s, -, rfl⟩ := exists_of_map_eq_ok hr
    exact h

theorem Idle.run (hinit : (machine T F D).init d₀) (h : (machine T F D).Run d₀ w d) : Idle d :=
  h.preserves (P := fun _ => True) (fun _ h hstep => h.step hstep) (fun _ _ => trivial)
    fun hev => by cases hinit.2.2.2.2.1.symm.trans hev

omit [DecidableEq T] in
/-- While no channel is being handled, `EventLoop` adds nothing to the operations. -/
theorem call_eq (hidle : d.eventHandling = false) (c : ActiveChannel C) (op : Channel.Op) :
    d.call D c op = D.call d.pollers (c, op) := by
  cases op with
  | change x => rfl
  | remove =>
    rw [Poller.call, Poller.remove, call]
    simp only [removeChannel, hidle]
    rfl

/-- A registered channel can be disabled and removed. -/
theorem exists_close (hremovable : D.Removable fd I) (hrefines : D.Refines fd I)
    (hidle : d.eventHandling = false) (hpc : d.loop.pc = .exited)
    (hcalling : d.loop.calling .loop = .returned) (hI : I d.pollers) {c : ActiveChannel C}
    (hc : D.hasChannel fd d.pollers c = true) : ∃ s,
      (machine T F D).Run d [.call c (.change .disableAll), .call c .remove]
        { d with pollers := s } ∧ I s ∧
      ∀ c', D.hasChannel fd s c' = (D.hasChannel fd d.pollers c' && decide (c' ≠ c)) := by
  obtain ⟨s', s, hdisable, hremove⟩ := hremovable.remove hI hc
  obtain ⟨hI', hinterest'⟩ := hrefines.call hI hdisable
  obtain ⟨hI'', hinterest⟩ := hrefines.call hI' hremove
  have hfirst : (machine T F D).step d (.call c (.change .disableAll))
      (.ok { d with pollers := s' }) :=
    .call (.inr hpc) hcalling (by rw [call_eq hidle, hdisable]; rfl)
  have hsecond : (machine T F D).step { d with pollers := s' } (.call c .remove)
      (.ok { d with pollers := s }) := by
    refine .call (.inr hpc) hcalling ?_
    rw [call_eq (d := { d with pollers := s' }) hidle, hremove]
    rfl
  refine ⟨s, .cons hfirst (.single hsecond), hI'', fun c' => ?_⟩
  rw [hinterest'] at hinterest
  have hregistered := congrFun (congrArg Interest.registered hinterest) c'
  refine hregistered.trans ?_
  show Function.update (Function.update (D.hasChannel fd d.pollers) c true) c false c' = _
  rw [Function.update_idem]
  by_cases hc' : c' = c
  · rw [hc', Function.update_self]
    simp
  · rw [Function.update_of_ne hc']
    simp [hc']

omit [DecidableEq T] in
/-- What nobody operates on stays registered. -/
theorem registered_of_notMem {c : ActiveChannel C} {v u : List (Action T F C A)}
    (hu : ∀ op, .call c op ∉ u) :
    (Interest.after ((v ++ u).flatMap Action.called)).registered c =
      (Interest.after (v.flatMap Action.called)).registered c := by
  induction u using List.reverseRecOn with
  | nil => rw [List.append_nil]
  | append_singleton u x ih =>
    have hbefore := ih fun op h => hu op (List.mem_append_left _ h)
    rw [← hbefore, ← List.append_assoc, List.flatMap_append, List.flatMap_singleton]
    cases x with
    | call c' op =>
      have hne : c ≠ c' := by
        rintro rfl
        exact hu op (by simp)
      rw [Action.called, Interest.after_append_singleton]
      cases op with
      | change x => exact Function.update_of_ne hne ..
      | remove => exact Function.update_of_ne hne ..
    | enter | loop | poll =>
      show (Interest.after (_ ++ [])).registered c = _
      rw [List.append_nil]

omit [DecidableEq T] in
/-- When `~Channel` fails no `assert`. -/
theorem destroyChannel_eq_ok_iff (hadded : D.Added fd d.pollers) {c : ActiveChannel C} :
    destroyChannel D fd d c = .ok () ↔
      d.handling c = false ∧ D.hasChannel fd d.pollers c = false := by
  rw [destroyChannel, hadded c]
  cases d.handling c <;> cases D.hasChannel fd d.pollers c <;>
    simp [bind, Except.bind]

/-- In every run from the constructor on, of which the two channels of the loop are no part:
`~Channel` fails no `assert` if and only if the channel is neither handled nor registered.
When `loop` has returned, the destructor of the loop fails none, removes the two channels and
no other, and they can be destroyed. -/
def Closes (T F : Type) [DecidableEq T] (D : Demultiplexer (ActiveChannel C) P X A)
    (fd : ActiveChannel C → ℕ) : Prop :=
  ∀ timerfdChannel_ d₀ w d, (machine T F D).init d₀ →
    (machine T F D).Run d₀ (construct timerfdChannel_ ++ w) d → Private timerfdChannel_ w →
    (∀ c, destroyChannel D fd d c = .ok () ↔
      d.handling c = false ∧ D.hasChannel fd d.pollers c = false) ∧
    (d.loop.pc = .exited → d.loop.calling .loop = .returned →
      ∃ d', (machine T F D).Run d (destruct timerfdChannel_) d' ∧
        destroyChannel D fd d' .wakeupChannel = .ok () ∧
        destroyChannel D fd d' (.channel timerfdChannel_) = .ok () ∧
        ∀ c, c ≠ .wakeupChannel → c ≠ .channel timerfdChannel_ →
          D.hasChannel fd d'.pollers c = D.hasChannel fd d.pollers c)

theorem closes (sound : D.Sound fd I) (hremovable : D.Removable fd I) : Closes T F D fd := by
  intro timerfdChannel_ d₀ w d hinit hrun hprivate
  have inv := (run sound hinit hrun).1
  refine ⟨fun c => destroyChannel_eq_ok_iff (hremovable.added inv.pollers), fun hpc hcalling => ?_⟩
  have hidle : d.eventHandling = false := by
    by_contra hev
    obtain ⟨current, active, hhandling⟩ := Idle.run hinit hrun (Bool.not_eq_false _ |>.mp hev)
    cases hpc.symm.trans hhandling
  -- the constructor has registered the two channels, and nobody has touched them since
  have hregistered : ∀ c, c = .wakeupChannel ∨ c = .channel timerfdChannel_ →
      D.hasChannel fd d.pollers c = true := by
    intro c hc
    have hafter := congrFun (congrArg Interest.registered (interest_of_run sound hinit hrun)) c
    refine hafter.trans ((registered_of_notMem fun op hop => ?_).trans ?_)
    · obtain ⟨hwakeup, htimerfd⟩ := hprivate c op hop
      exact hc.elim hwakeup htimerfd
    · show Function.update (Function.update (fun _ => false : ActiveChannel C → Bool)
        (.channel timerfdChannel_) true) .wakeupChannel true c = true
      rcases hc with rfl | rfl
      · rw [Function.update_self]
      · have hne : ActiveChannel.channel timerfdChannel_ ≠ .wakeupChannel := nofun
        rw [Function.update_of_ne hne, Function.update_self]
  obtain ⟨s, hfirst, hI, hwithout⟩ := exists_close hremovable sound.refines hidle hpc hcalling
    inv.pollers (hregistered .wakeupChannel (.inl rfl))
  have hstill : D.hasChannel fd s (.channel timerfdChannel_) = true := by
    rw [hwithout, hregistered _ (.inr rfl)]
    rfl
  obtain ⟨s', hsecond, hI', hwithout'⟩ := exists_close (d := { d with pollers := s }) hremovable
    sound.refines hidle hpc hcalling hI hstill
  have hboth : ∀ c, D.hasChannel fd s' c = (D.hasChannel fd d.pollers c &&
      decide (c ≠ .wakeupChannel) && decide (c ≠ .channel timerfdChannel_)) :=
    fun c => (hwithout' c).trans (congrArg (· && _) (hwithout c))
  have hdestroy : ∀ c, c = .wakeupChannel ∨ c = .channel timerfdChannel_ →
      destroyChannel D fd { d with pollers := s' } c = .ok () := by
    intro c hc
    refine (destroyChannel_eq_ok_iff (hremovable.added hI')).mpr ⟨?_, ?_⟩
    · cases c with
      | wakeupChannel => rfl
      | channel c => simp [handling, hpc]
    · refine (hboth c).trans ?_
      rcases hc with rfl | rfl <;> simp
  refine ⟨_, hfirst.append hsecond, hdestroy _ (.inl rfl), hdestroy _ (.inr rfl),
    fun c hwakeup htimerfd => ?_⟩
  refine (hboth c).trans ?_
  rw [decide_eq_true hwakeup, decide_eq_true htimerfd, Bool.and_true, Bool.and_true]

end Dispatcher

/-- **The destructor of `EventLoop`.** Over `EPollPoller` and over `PollPoller`, after any run
of the loop from its constructor on, with any operations of handlers and functors on their own
channels: the destructor fails no `assert`, removes its two channels and leaves the registration
of the others as it is; and at any time `~Channel` accepts exactly the channels that are neither
handled nor registered. -/
theorem destructor_succeeds (T F : Type) {C : Type} [DecidableEq T] [DecidableEq C]
    (fd : ActiveChannel C → ℕ) : Dispatcher.Closes T F (ePollDemultiplexer fd) fd ∧
      Dispatcher.Closes T F (pollDemultiplexer fd) fd :=
  ⟨Dispatcher.closes (EPollPoller.sound fd) (EPollPoller.removable fd),
    Dispatcher.closes (PollPoller.sound_added fd) (PollPoller.removable fd)⟩

/-- A channel with the file descriptor of a removed one is still there after the destructor. -/
theorem destructor_succeeds_shared :
    ∃ d d' : Dispatcher Unit Unit (Option Bool) (EPollPoller (ActiveChannel (Option Bool))) ℕ,
      (Dispatcher.machine Unit Unit (ePollDemultiplexer sharedFd)).Run d
        (Dispatcher.destruct none) d' ∧
      Dispatcher.destroyChannel (ePollDemultiplexer sharedFd) sharedFd d
        (.channel (some true)) = .ok () ∧
      (ePollDemultiplexer sharedFd).hasChannel sharedFd d'.pollers (.channel (some false)) =
        true := by
  let w : List (Dispatcher.Action Unit Unit (Option Bool)
      (Option (List (BitVec 32 × ActiveChannel (Option Bool))))) :=
    [.call (.channel (some true)) (.change .enableReading),
      .call (.channel (some true)) (.change .disableAll), .call (.channel (some true)) .remove,
      .call (.channel (some false)) (.change .enableReading)]
  obtain ⟨d, hrun, hpc, hcalling, hhandling, hremoved, hadded⟩ : ∃ d,
      (Dispatcher.machine Unit Unit (ePollDemultiplexer sharedFd)).Run
        (.fresh (ePollDemultiplexer sharedFd))
        (.call (.channel none) (.change .enableReading) ::
          .call .wakeupChannel (.change .enableReading) :: w) d ∧
      d.loop.pc = .exited ∧ d.loop.calling .loop = .returned ∧
      d.handling (.channel (some true)) = false ∧
      (ePollDemultiplexer sharedFd).hasChannel sharedFd d.pollers (.channel (some true)) = false ∧
      (ePollDemultiplexer sharedFd).hasChannel sharedFd d.pollers (.channel (some false)) = true :=
    ⟨_, .cons (.call (.inr rfl) rfl rfl) <| .cons (.call (.inr rfl) rfl rfl) <|
      .cons (.call (.inr rfl) rfl rfl) <| .cons (.call (.inr rfl) rfl rfl) <|
      .cons (.call (.inr rfl) rfl rfl) <| .single (.call (.inr rfl) rfl rfl),
      rfl, rfl, rfl, rfl, rfl⟩
  have hprivate : Dispatcher.Private none w := by
    intro c op hop
    simp only [w, List.mem_cons, List.not_mem_nil, or_false,
      Dispatcher.Action.call.injEq] at hop
    rcases hop with ⟨rfl, -⟩ | ⟨rfl, -⟩ | ⟨rfl, -⟩ | ⟨rfl, -⟩ <;> simp
  obtain ⟨hdestroy, hdestruct⟩ := (destructor_succeeds Unit Unit sharedFd).1 none _ w d
    (Dispatcher.fresh_init _) hrun hprivate
  obtain ⟨d', hclose, -, -, hothers⟩ := hdestruct hpc hcalling
  exact ⟨d, d', hclose, (hdestroy _).mpr ⟨hhandling, hremoved⟩,
    (hothers (.channel (some false)) nofun (by simp)).trans hadded⟩

end Dxian
