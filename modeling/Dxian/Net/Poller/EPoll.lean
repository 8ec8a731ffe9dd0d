import Dxian.Net.Channel

/-!
# The poller over `epoll`

`EPollPoller` has three views of a registration: the map `channels_`, the
`index_` of the channel (new, added or deleted) and the interest list that the
kernel keeps for `epollfd_`. A refused `EPOLL_CTL_ADD` or `EPOLL_CTL_MOD` stops
the program; a refused `EPOLL_CTL_DEL` is logged.

## Main results

- `Invariant.call_change`, `Invariant.call_remove` — what the operations do
- `index_agrees_with_kernel` — the three views agree in every run
-/

namespace Dxian

open Transition

/-- The operations of `epoll_ctl`. -/
inductive EpollCtl
  | add
  | mod
  | del
deriving DecidableEq

/-- `class EPollPoller`, and the interest list: the mask and the `data.ptr` of each
file descriptor. `refused` records the calls of `epoll_ctl` that have failed. -/
structure EPollPoller (Ch : Type) where
  channels : ℕ → Option Ch
  interestList : ℕ → Option (BitVec 32 × Ch)
  refused : List (EpollCtl × ℕ)

namespace EPollPoller

variable {Ch : Type} [DecidableEq Ch]

def kNew : ℤ := -1

def kAdded : ℤ := 1

def kDeleted : ℤ := 2

/-- `epoll_ctl`; `none` is the answer -1. -/
def epollCtl (list : ℕ → Option (BitVec 32 × Ch)) (operation : EpollCtl) (fd : ℕ)
    (event : BitVec 32 × Ch) : Option (ℕ → Option (BitVec 32 × Ch)) :=
  match operation, list fd with
  | .add, none => some (Function.update list fd (some event))
  | .mod, some _ => some (Function.update list fd (some event))
  | .del, some _ => some (Function.update list fd none)
  | _, _ => none

variable (fd : Ch → ℕ)

/-- `EPollPoller::update`. -/
def update (s : PollerState Ch (EPollPoller Ch)) (operation : EpollCtl) (c : Ch) :
    Except Fault (PollerState Ch (EPollPoller Ch)) :=
  match epollCtl s.poller.interestList operation (fd c) ((s.channel c).events, c) with
  | some list => .ok { s with poller := { s.poller with interestList := list } }
  | none =>
    if operation = .del then
      .ok { s with poller := { s.poller with refused := (operation, fd c) :: s.poller.refused } }
    else .error .sysFatal

/-- `EPollPoller::updateChannel`. -/
def updateChannel (s : PollerState Ch (EPollPoller Ch)) (c : Ch) :
    Except Fault (PollerState Ch (EPollPoller Ch)) := do
  let index := (s.channel c).index
  if index = kNew ∨ index = kDeleted then
    let s ←
      if index = kNew then do
        check (s.poller.channels (fd c)).isNone
        pure { s with poller := { s.poller with
          channels := Function.update s.poller.channels (fd c) (some c) } }
      else do
        check (s.poller.channels (fd c)).isSome
        check (s.poller.channels (fd c) == some c)
        pure s
    update fd (s.setIndex c kAdded) .add c
  else
    check (s.poller.channels (fd c)).isSome
    check (s.poller.channels (fd c) == some c)
    check (index == kAdded)
    if (s.channel c).isNoneEvent then
      let s ← update fd s .del c
      return s.setIndex c kDeleted
    else
      update fd s .mod c

/-- `EPollPoller::removeChannel`. -/
def removeChannel (s : PollerState Ch (EPollPoller Ch)) (c : Ch) :
    Except Fault (PollerState Ch (EPollPoller Ch)) := do
  check (s.poller.channels (fd c)).isSome
  check (s.poller.channels (fd c) == some c)
  check (s.channel c).isNoneEvent
  let index := (s.channel c).index
  check (index == kAdded || index == kDeleted)
  let n := if (s.poller.channels (fd c)).isSome then 1 else 0
  let s : PollerState Ch (EPollPoller Ch) := { s with poller := { s.poller with
    channels := Function.update s.poller.channels (fd c) none } }
  check (n == 1)
  let s ← if index = kAdded then update fd s .del c else pure s
  return s.setIndex c kNew

end EPollPoller

/-- `EPollPoller` as a `Poller`. -/
def ePollPoller {Ch : Type} [DecidableEq Ch] (fd : Ch → ℕ) : Poller Ch (EPollPoller Ch) where
  empty := ⟨fun _ => none, fun _ => none, []⟩
  channels := EPollPoller.channels
  updateChannel := EPollPoller.updateChannel fd
  removeChannel := EPollPoller.removeChannel fd

namespace EPollPoller

variable {Ch : Type}

/-! ## The three views -/

/-- What `index_` says is what `channels_` and the kernel say. -/
inductive InStep (fd : Ch → ℕ) (s : PollerState Ch (EPollPoller Ch)) (c : Ch) : Prop
  | new (hindex : (s.channel c).index = kNew) (hloop : (s.channel c).addedToLoop = false)
      (hchannels : s.poller.channels (fd c) ≠ some c)
      (hevents : (s.channel c).events = Channel.kNoneEvent)
  | added (hindex : (s.channel c).index = kAdded) (hloop : (s.channel c).addedToLoop = true)
      (hchannels : s.poller.channels (fd c) = some c)
      (hlist : s.poller.interestList (fd c) = some ((s.channel c).events, c))
  | deleted (hindex : (s.channel c).index = kDeleted) (hloop : (s.channel c).addedToLoop = true)
      (hchannels : s.poller.channels (fd c) = some c)
      (hlist : s.poller.interestList (fd c) = none)
      (hevents : (s.channel c).events = Channel.kNoneEvent)

/-- The invariant of `EPollPoller`. -/
structure Invariant (fd : Ch → ℕ) (s : PollerState Ch (EPollPoller Ch)) : Prop where
  inStep : ∀ c, InStep fd s c
  channels_key : ∀ k c, s.poller.channels k = some c → k = fd c
  list_key : ∀ k m c, s.poller.interestList k = some (m, c) →
    k = fd c ∧ s.poller.channels k = some c
  refused : s.poller.refused = []

variable [DecidableEq Ch] {fd : Ch → ℕ} {s : PollerState Ch (EPollPoller Ch)} {c : Ch}

/-- A state changed at the channel `c` and at its file descriptor. -/
def setAt (fd : Ch → ℕ) (s : PollerState Ch (EPollPoller Ch)) (c : Ch) (y : Channel)
    (ch : Option Ch) (e : Option (BitVec 32)) : PollerState Ch (EPollPoller Ch) where
  channel := Function.update s.channel c y
  poller := { s.poller with
    channels := Function.update s.poller.channels (fd c) ch
    interestList := Function.update s.poller.interestList (fd c) (e.map (·, c)) }

section SetAt

variable {y : Channel} {ch : Option Ch} {e : Option (BitVec 32)}

@[simp] theorem setAt_channel : (setAt fd s c y ch e).channel = Function.update s.channel c y := rfl

@[simp] theorem setAt_channels : (setAt fd s c y ch e).poller.channels =
    Function.update s.poller.channels (fd c) ch := rfl

@[simp] theorem setAt_interestList : (setAt fd s c y ch e).poller.interestList =
    Function.update s.poller.interestList (fd c) (e.map (·, c)) := rfl

end SetAt

/-- No other channel has the file descriptor of `c`. -/
@[reducible] def Free (fd : Ch → ℕ) (s : PollerState Ch (EPollPoller Ch)) (c : Ch) : Prop :=
  Poller.Own c (s.poller.channels (fd c))

omit [DecidableEq Ch] in
theorem Invariant.interestList_eq_none (inv : Invariant fd s) {k : ℕ}
    (h : s.poller.channels k = none) : s.poller.interestList k = none := by
  cases hlist : s.poller.interestList k with
  | none => rfl
  | some e => cases h.symm.trans (inv.list_key k e.1 e.2 hlist).2

/-- **Frame**: the other channels stay in step. -/
theorem Invariant.of_inStep (inv : Invariant fd s) {y : Channel} {ch : Option Ch}
    {e : Option (BitVec 32)} (hfree : Free fd s c) (hch : ch = some c ∨ ch = none ∧ e = none)
    (hc : InStep fd (setAt fd s c y ch e) c) : Invariant fd (setAt fd s c y ch e) where
  inStep d := by
    by_cases hd : d = c
    · rw [hd]; exact hc
    · have hold := inv.inStep d
      have hchannel : (setAt fd s c y ch e).channel d = s.channel d :=
        Function.update_of_ne hd ..
      by_cases hfd : fd d = fd c
      · -- it was not registered, and neither is it now
        have hother : s.poller.channels (fd d) ≠ some d := hfd ▸ hfree.ne hd
        cases hold with
        | new h1 h2 _ h4 =>
          refine .new (by rw [hchannel, h1]) (by rw [hchannel, h2]) ?_ (by rw [hchannel, h4])
          rw [hfd, setAt_channels, Function.update_self]
          rcases hch with rfl | ⟨rfl, -⟩
          · exact fun heq => hd (Option.some.inj heq).symm
          · nofun
        | added _ _ h3 _ | deleted _ _ h3 _ _ => exact absurd h3 hother
      · have hchannels : (setAt fd s c y ch e).poller.channels (fd d) =
            s.poller.channels (fd d) := Function.update_of_ne hfd ..
        have hlist : (setAt fd s c y ch e).poller.interestList (fd d) =
            s.poller.interestList (fd d) := Function.update_of_ne hfd ..
        cases hold with
        | new h1 h2 h3 h4 =>
          exact .new (by rw [hchannel, h1]) (by rw [hchannel, h2]) (by rw [hchannels]; exact h3)
            (by rw [hchannel, h4])
        | added h1 h2 h3 h4 =>
          exact .added (by rw [hchannel, h1]) (by rw [hchannel, h2]) (by rw [hchannels, h3])
            (by rw [hlist, hchannel, h4])
        | deleted h1 h2 h3 h4 h5 =>
          exact .deleted (by rw [hchannel, h1]) (by rw [hchannel, h2]) (by rw [hchannels, h3])
            (by rw [hlist, h4]) (by rw [hchannel, h5])
  channels_key k d hk := by
    by_cases hfd : k = fd c
    · subst hfd
      rw [setAt_channels, Function.update_self] at hk
      rcases hch with rfl | ⟨rfl, -⟩
      · rw [Option.some.inj hk]
      · cases hk
    · rw [setAt_channels, Function.update_of_ne hfd] at hk
      exact inv.channels_key k d hk
  list_key k m d hk := by
    by_cases hfd : k = fd c
    · subst hfd
      rw [setAt_interestList, Function.update_self] at hk
      obtain ⟨m', he, heq⟩ := Option.map_eq_some_iff.mp hk
      obtain rfl : ch = some c := hch.resolve_right fun h => by cases h.2.symm.trans he
      obtain rfl := (Prod.mk.inj heq).2
      exact ⟨rfl, by rw [setAt_channels, Function.update_self]⟩
    · rw [setAt_interestList, Function.update_of_ne hfd] at hk
      rw [setAt_channels, Function.update_of_ne hfd]
      exact inv.list_key k m d hk
  refused := inv.refused

/-! ## What the operations do -/

section Update

variable {y : Channel}

/-- A new or deleted channel is added. -/
theorem updateChannel_add (hindex : y.index = kNew ∧ s.poller.channels (fd c) = none ∨
      y.index = kDeleted ∧ s.poller.channels (fd c) = some c)
    (hlist : s.poller.interestList (fd c) = none) : updateChannel fd (s.set c y) c =
      .ok (setAt fd s c { y with index := kAdded } (some c) (some y.events)) := by
  rcases hindex with ⟨hindex, hchannels⟩ | ⟨hindex, hchannels⟩
  · simp [updateChannel, update, epollCtl, setAt, hindex, hchannels, hlist, bind, Except.bind, pure,
      Except.pure]
  · have hne : kDeleted ≠ kNew := by decide
    have hsame : Function.update s.poller.channels (fd c) (some c) = s.poller.channels := by
      rw [← hchannels, Function.update_eq_self]
    simp [updateChannel, update, epollCtl, setAt, hindex, hne, hsame, hchannels, hlist, bind,
      Except.bind, pure, Except.pure]

/-- An added channel is modified, or deleted if no event is left. -/
theorem updateChannel_added (hindex : y.index = kAdded)
    (hchannels : s.poller.channels (fd c) = some c) {m : BitVec 32}
    (hlist : s.poller.interestList (fd c) = some (m, c)) : updateChannel fd (s.set c y) c =
      .ok (if y.isNoneEvent then setAt fd s c { y with index := kDeleted } (some c) none
        else setAt fd s c y (some c) (some y.events)) := by
  have hne : ¬ (kAdded = kNew ∨ kAdded = kDeleted) := by decide
  have hsame : Function.update s.poller.channels (fd c) (some c) = s.poller.channels := by
    rw [← hchannels, Function.update_eq_self]
  by_cases hnone : y.isNoneEvent = true
  · simp [updateChannel, update, epollCtl, setAt, hindex, hne, hsame, hchannels, hlist, hnone, bind,
      Except.bind, pure, Except.pure, PollerState.setIndex, PollerState.set]
  · simp [updateChannel, update, epollCtl, setAt, hindex, hne, hsame, hchannels, hlist, hnone, bind,
      Except.bind, PollerState.set]

/-- A file descriptor that another channel has fails an `assert`. -/
theorem updateChannel_of_not_free (h : ¬ Free fd s c) :
    updateChannel fd (s.set c y) c = .error .assertion := by
  obtain ⟨hnone, hne⟩ := not_or.mp h
  obtain ⟨d, hd⟩ := Option.ne_none_iff_exists'.mp hnone
  have hassert : (s.poller.channels (fd c) == some c) = false := beq_eq_false_iff_ne.mpr hne
  rw [hd] at hassert
  by_cases hnew : y.index = kNew
  · simp [updateChannel, hnew, hd, bind, Except.bind]
  · by_cases hdeleted : y.index = kDeleted
    · have hkinds : kDeleted ≠ kNew := by decide
      simp [updateChannel, hdeleted, hkinds, hd, hassert, bind, Except.bind]
    · simp [updateChannel, hnew, hdeleted, hd, hassert, bind, Except.bind]

/-- A registered channel is removed, from the interest list too if it is there. -/
theorem removeChannel_eq (hnone : y.isNoneEvent = true)
    (hchannels : s.poller.channels (fd c) = some c)
    (hindex : y.index = kAdded ∧ (s.poller.interestList (fd c)).isSome ∨
      y.index = kDeleted ∧ s.poller.interestList (fd c) = none) :
    removeChannel fd (s.set c y) c = .ok (setAt fd s c { y with index := kNew } none none) := by
  rcases hindex with ⟨hindex, hlist⟩ | ⟨hindex, hlist⟩
  · obtain ⟨e, he⟩ := Option.isSome_iff_exists.mp hlist
    simp [removeChannel, update, epollCtl, setAt, hindex, hchannels, he, hnone, bind, Except.bind,
      pure, Except.pure, PollerState.setIndex, PollerState.set]
  · have hne : kDeleted ≠ kAdded := by decide
    have hsame : Function.update s.poller.interestList (fd c) none = s.poller.interestList := by
      rw [← hlist, Function.update_eq_self]
    simp [removeChannel, setAt, hindex, hne, hsame, hchannels, hnone, bind, Except.bind, pure,
      Except.pure, PollerState.setIndex, PollerState.set]

end Update

/-- The spec of an operation that changes the interest. -/
theorem Invariant.call_change (inv : Invariant fd s) (hfree : Free fd s c) (x : Channel.Change) :
    ∃ y e, (ePollPoller fd).call s (c, .change x) = .ok (setAt fd s c y (some c) e) ∧
      Invariant fd (setAt fd s c y (some c) e) ∧ y.events = x.apply (s.channel c).events ∧
      e = if (s.channel c).index = kAdded ∧ y.events = Channel.kNoneEvent then none
        else some y.events := by
  let y : Channel := { (s.channel c).change x with addedToLoop := true }
  have hcall : (ePollPoller fd).call s (c, .change x) = updateChannel fd (s.set c y) c :=
    Poller.call_change ..
  rw [hcall]
  have hstep := inv.inStep c
  cases hstep with
  | new hindex hloop hchannels _ =>
    have hnone := hfree.resolve_right hchannels
    refine ⟨{ y with index := kAdded }, some y.events, ?_, inv.of_inStep hfree (.inl rfl) ?_, rfl,
      ?_⟩
    · exact updateChannel_add (.inl ⟨hindex, hnone⟩) (inv.interestList_eq_none hnone)
    · exact .added (by simp) (by simp [y]) (by simp) (by simp)
    · simp [hindex, kNew, kAdded]
  | added hindex hloop hchannels hlist =>
    by_cases hnone : y.events = Channel.kNoneEvent
    · refine ⟨{ y with index := kDeleted }, none, ?_, inv.of_inStep hfree (.inl rfl) ?_, rfl, ?_⟩
      · rw [updateChannel_added (y := y) hindex hchannels hlist,
          if_pos (Channel.isNoneEvent_iff.mpr hnone)]
      · exact .deleted (by simp) (by simp [y]) (by simp) (by simp) (by simpa using hnone)
      · rw [if_pos ⟨hindex, hnone⟩]
    · refine ⟨y, some y.events, ?_, inv.of_inStep hfree (.inl rfl) ?_, rfl, ?_⟩
      · rw [updateChannel_added (y := y) hindex hchannels hlist,
          if_neg (mt Channel.isNoneEvent_iff.mp hnone)]
      · exact .added (by simp [y, Channel.change, hindex]) (by simp [y]) (by simp) (by simp)
      · rw [if_neg fun h => hnone h.2]
  | deleted hindex hloop hchannels hlist hevents =>
    refine ⟨{ y with index := kAdded }, some y.events, ?_, inv.of_inStep hfree (.inl rfl) ?_, rfl,
      ?_⟩
    · exact updateChannel_add (.inr ⟨hindex, hchannels⟩) hlist
    · exact .added (by simp) (by simp [y]) (by simp) (by simp)
    · simp [hindex, kDeleted, kAdded]

/-- The spec of `remove`. -/
theorem Invariant.call_remove (inv : Invariant fd s) {c : Ch}
    (hchannels : s.poller.channels (fd c) = some c)
    (hevents : (s.channel c).events = Channel.kNoneEvent) :
    ∃ y, (ePollPoller fd).call s (c, .remove) = .ok (setAt fd s c y none none) ∧
      Invariant fd (setAt fd s c y none none) ∧ y.events = (s.channel c).events := by
  let y : Channel := { s.channel c with addedToLoop := false }
  have hnone := Channel.isNoneEvent_iff.mpr hevents
  have hcall : (ePollPoller fd).call s (c, .remove) = removeChannel fd (s.set c y) c :=
    Poller.call_remove _ hnone
  refine ⟨{ y with index := kNew }, ?_, inv.of_inStep (.inr hchannels) (.inr ⟨rfl, rfl⟩) ?_, rfl⟩
  · rw [hcall]
    refine removeChannel_eq hnone hchannels ?_
    have hstep := inv.inStep c
    cases hstep with
    | new _ _ hnew _ => exact absurd hchannels hnew
    | added hindex hloop _ hlist => exact .inl ⟨hindex, by simp [hlist]⟩
    | deleted hindex hloop _ hlist _ => exact .inr ⟨hindex, hlist⟩
  · exact .new (by simp) (by simp [y]) (by simp) (by simpa [y] using hevents)

/-- When an operation that changes the interest does not fail. -/
theorem free_of_call_change {s' : PollerState Ch (EPollPoller Ch)} {x : Channel.Change}
    (h : (ePollPoller fd).call s (c, .change x) = .ok s') : Free fd s c := by
  by_contra hfree
  rw [Poller.call_change] at h
  cases (updateChannel_of_not_free hfree).symm.trans h

theorem removeChannel_of_ne (y : Channel) (h : s.poller.channels (fd c) ≠ some c) :
    removeChannel fd (s.set c y) c = .error .assertion := by
  have hassert : (s.poller.channels (fd c) == some c) = false := beq_eq_false_iff_ne.mpr h
  simp only [removeChannel, PollerState.set_poller, hassert, check_false, bind, Except.bind]
  cases (s.poller.channels (fd c)).isSome <;> rfl

/-- When `remove` does not fail. -/
theorem of_call_remove {s' : PollerState Ch (EPollPoller Ch)}
    (h : (ePollPoller fd).call s (c, .remove) = .ok s') :
    s.poller.channels (fd c) = some c ∧ (s.channel c).events = Channel.kNoneEvent := by
  have hnone : (s.channel c).isNoneEvent = true := Poller.isNoneEvent_of_call_remove h
  refine ⟨?_, Channel.isNoneEvent_iff.mp hnone⟩
  by_contra hne
  rw [Poller.call_remove _ hnone] at h
  cases (removeChannel_of_ne _ hne).symm.trans h

theorem interest_setAt {y : Channel} {ch : Option Ch} {e : Option (BitVec 32)}
    (hfree : Free fd s c) (hch : ch = none ∨ ch = some c) :
    (ePollPoller fd).interest fd (setAt fd s c y ch e) =
      ⟨Function.update ((ePollPoller fd).interest fd s).events c y.events,
        Function.update ((ePollPoller fd).interest fd s).registered c (ch = some c)⟩ := by
  refine Poller.interest_update (fun d => ?_) hfree hch rfl
  rw [setAt_channel]
  by_cases hd : d = c
  · rw [hd, Function.update_self, Function.update_self]
  · rw [Function.update_of_ne hd, Function.update_of_ne hd]

/-- `EPollPoller` does what the operations ask for. -/
theorem refines (fd : Ch → ℕ) : (ePollPoller fd).Refines fd (Invariant fd) where
  fresh := by
    refine ⟨⟨fun c => .new rfl rfl nofun rfl, ?_, ?_, rfl⟩, rfl⟩
    · intro k c h
      cases h
    · intro k m c h
      cases h
  call {s s' x} inv h := by
    obtain ⟨c, op⟩ := x
    cases op with
    | change x =>
      have hfree := free_of_call_change h
      obtain ⟨y, e, hcall, hinv, hevents, -⟩ := inv.call_change hfree x
      cases hcall.symm.trans h
      refine ⟨hinv, ?_⟩
      rw [interest_setAt hfree (.inr rfl), hevents, decide_eq_true rfl]
      rfl
    | remove =>
      obtain ⟨hchannels, hnone⟩ := of_call_remove h
      obtain ⟨y, hcall, hinv, hevents⟩ := inv.call_remove hchannels hnone
      cases hcall.symm.trans h
      refine ⟨hinv, ?_⟩
      rw [interest_setAt (.inr hchannels) (.inl rfl), hevents, decide_eq_false nofun]
      apply Interest.ext
      · exact Function.update_eq_self ..
      · rfl

omit [DecidableEq Ch] in
/-- Distinct channels do not compete for a file descriptor. -/
theorem Invariant.free {fd : Ch ↪ ℕ} (inv : Invariant fd s) (c : Ch) : Free fd s c := by
  cases hchannels : s.poller.channels (fd c) with
  | none => exact .inl hchannels
  | some d =>
    obtain rfl := fd.injective (inv.channels_key _ d hchannels)
    exact .inr hchannels

/-- **The index agrees with the kernel.** In every state that operations on the
channels can lead to: `index_` says whether the channel is in `channels_` and in the
interest list, and with what mask; `addedToLoop_` says whether it is registered; no
`epoll_ctl` has been refused; whatever is in the interest list is registered; and no
operation fails, as long as only added channels without events are removed. -/
theorem index_agrees_with_kernel (fd : Ch ↪ ℕ)
    (h : (ePollPoller fd).system.Reachable s) :
    (∀ c, ((s.channel c).index = kNew ↔
        s.poller.channels (fd c) = none ∧ s.poller.interestList (fd c) = none) ∧
      ((s.channel c).index = kAdded ↔ s.poller.channels (fd c) = some c ∧
        s.poller.interestList (fd c) = some ((s.channel c).events, c)) ∧
      ((s.channel c).index = kDeleted ↔ s.poller.channels (fd c) = some c ∧
        s.poller.interestList (fd c) = none ∧ (s.channel c).events = Channel.kNoneEvent) ∧
      (s.channel c).addedToLoop = (ePollPoller fd).hasChannel fd s c) ∧
    s.poller.refused = [] ∧
    (∀ k m c, s.poller.interestList k = some (m, c) → (ePollPoller fd).hasChannel fd s c = true) ∧
    (∀ c x, ∃ s', (ePollPoller fd).call s (c, .change x) = .ok s') ∧
    ∀ c, (s.channel c).addedToLoop = true → (s.channel c).isNoneEvent = true →
      ∃ s', (ePollPoller fd).call s (c, .remove) = .ok s' := by
  have inv : Invariant fd s := by
    obtain ⟨_, w, rfl, hw⟩ := h
    exact ((refines fd).run hw).1
  have hnew : kNew ≠ kAdded ∧ kNew ≠ kDeleted ∧ kAdded ≠ kDeleted := by decide
  have hhas : ∀ c, (ePollPoller fd).hasChannel fd s c =
      decide (s.poller.channels (fd c) = some c) := fun _ => rfl
  refine ⟨fun c => ?_, inv.refused, fun k m c hk => ?_, fun c x => ?_, fun c hadded hnone => ?_⟩
  · rw [hhas]
    have hstep := inv.inStep c
    cases hstep with
    | new hindex hloop hchannels _ =>
      have hnone := (inv.free c).resolve_right hchannels
      simp [hindex, hloop, hnone, inv.interestList_eq_none hnone, hnew]
    | added hindex hloop hchannels hlist =>
      simp [hindex, hloop, hchannels, hlist, hnew, hnew.1.symm]
    | deleted hindex hloop hchannels hlist hevents =>
      simp [hindex, hloop, hchannels, hlist, hevents, hnew.2.1.symm, hnew.2.2.symm]
  · rw [hhas]
    obtain ⟨rfl, hchannels⟩ := inv.list_key k m c hk
    exact decide_eq_true hchannels
  · obtain ⟨y, e, hcall, -⟩ := inv.call_change (inv.free c) x
    exact ⟨_, hcall⟩
  · have hchannels : s.poller.channels (fd c) = some c := by
      have hstep := inv.inStep c
      cases hstep with
      | new _ hloop _ _ => cases hadded.symm.trans hloop
      | added _ _ hchannels _ => exact hchannels
      | deleted _ _ hchannels _ _ => exact hchannels
    obtain ⟨y, hcall, -⟩ := inv.call_remove hchannels (Channel.isNoneEvent_iff.mp hnone)
    exact ⟨_, hcall⟩

/-- A channel that is enabled again after it has been removed is in the interest list. -/
theorem index_agrees_with_kernel_readded : ∃ s,
    (ePollPoller (Function.Embedding.refl ℕ)).system.Run
      (ePollPoller (Function.Embedding.refl ℕ)).fresh
      [(3, .change .enableReading), (3, .change .disableAll), (3, .remove),
        (3, .change .enableWriting)] s ∧
    s.poller.interestList 3 = some ((s.channel 3).events, 3) := by
  obtain ⟨s, hrun, hP⟩ := Poller.exists_run (M := ePollPoller (Function.Embedding.refl ℕ))
    (w := [(3, .change .enableReading), (3, .change .disableAll), (3, .remove),
      (3, .change .enableWriting)]) (Q := fun s => (s.channel 3).index = kAdded) (by decide)
  have hagrees := index_agrees_with_kernel (Function.Embedding.refl ℕ)
    ((System.Reachable.of_init rfl).run hrun)
  exact ⟨s, hrun, ((hagrees.1 3).2.1.mp (of_decide_eq_true hP)).2⟩

end EPollPoller

end Dxian
