import Dxian.Lib.SwapRemove
import Dxian.Net.Channel

/-!
# The poller over `poll`

`PollPoller` keeps a vector of `pollfd`s. The `index_` of a channel is its
position there; a channel without events stays in the vector with a negative
`fd`, which `poll` ignores. A removal swaps with the last element.

`removeChannel` leaves `index_` as it is, and an `updateChannel` that finds a
new channel does not look whether it has events.

## Main results

- `Invariant` — every registered channel has a slot of its own
- `Invariant.call_new`, `Invariant.call_registered`, `Invariant.call_remove` — what
  the operations do
- `Effect` — what an operation that does not fail has done
- `refines` — `PollPoller` does what the operations ask for
-/

namespace Dxian

open Transition

/-- `struct pollfd`. -/
structure PollFd where
  fd : ℤ
  events : BitVec 16
  revents : BitVec 16
deriving DecidableEq

/-- `class PollPoller`. -/
structure PollPoller (Ch : Type) where
  channels : ℕ → Option Ch
  pollfds : List PollFd

namespace PollPoller

variable {Ch : Type} [DecidableEq Ch]

/-- `pollfds_[idx]`. -/
def at? (pollfds : List PollFd) (idx : ℤ) : Except Fault PollFd :=
  match if 0 ≤ idx then pollfds[idx.toNat]? else none with
  | some pfd => .ok pfd
  | none => .error .outOfRange

theorem at?_natCast {pollfds : List PollFd} {i : ℕ} {pfd : PollFd}
    (h : pollfds[i]? = some pfd) : at? pollfds i = .ok pfd := by
  simp [at?, h]

variable (fd : Ch → ℕ)

/-- `PollPoller::updateChannel`. -/
def updateChannel (s : PollerState Ch (PollPoller Ch)) (c : Ch) :
    Except Fault (PollerState Ch (PollPoller Ch)) := do
  if (s.channel c).index < 0 then
    check (s.poller.channels (fd c)).isNone
    let pfd : PollFd := ⟨fd c, (s.channel c).events.setWidth 16, 0⟩
    let pollfds := s.poller.pollfds ++ [pfd]
    let idx : ℤ := pollfds.length - 1
    let s := s.setIndex c idx
    return { s with poller := {
      channels := Function.update s.poller.channels (fd c) (some c), pollfds := pollfds } }
  else
    check (s.poller.channels (fd c)).isSome
    check (s.poller.channels (fd c) == some c)
    let idx := (s.channel c).index
    check (0 ≤ idx && idx < s.poller.pollfds.length)
    let pfd ← at? s.poller.pollfds idx
    check (pfd.fd == fd c || pfd.fd == -(fd c : ℤ) - 1)
    let pfd : PollFd := ⟨fd c, (s.channel c).events.setWidth 16, 0⟩
    let pfd := if (s.channel c).isNoneEvent then { pfd with fd := -(fd c : ℤ) - 1 } else pfd
    return { s with poller := { s.poller with pollfds := s.poller.pollfds.set idx.toNat pfd } }

/-- `PollPoller::removeChannel`. -/
def removeChannel (s : PollerState Ch (PollPoller Ch)) (c : Ch) :
    Except Fault (PollerState Ch (PollPoller Ch)) := do
  check (s.poller.channels (fd c)).isSome
  check (s.poller.channels (fd c) == some c)
  check (s.channel c).isNoneEvent
  let idx := (s.channel c).index
  check (0 ≤ idx && idx < s.poller.pollfds.length)
  let pfd ← at? s.poller.pollfds idx
  check (pfd.fd == -(fd c : ℤ) - 1 && pfd.events.signExtend 32 == (s.channel c).events)
  let n := if (s.poller.channels (fd c)).isSome then 1 else 0
  let channels := Function.update s.poller.channels (fd c) none
  check (n == 1)
  let last := s.poller.pollfds.length - 1
  if idx.toNat = last then
    return { s with poller := { channels := channels, pollfds := s.poller.pollfds.dropLast } }
  else
    let back ← at? s.poller.pollfds last
    let pollfds := SwapRemove.swap s.poller.pollfds idx.toNat last
    let channelAtEnd := if back.fd < 0 then -back.fd - 1 else back.fd
    match channels channelAtEnd.toNat with
    | none => .error .nullPointer
    | some d =>
      let s := s.setIndex d idx
      return { s with poller := { channels := channels, pollfds := pollfds.dropLast } }

end PollPoller

/-- `PollPoller` as a `Poller`. -/
def pollPoller {Ch : Type} [DecidableEq Ch] (fd : Ch → ℕ) : Poller Ch (PollPoller Ch) where
  empty := ⟨fun _ => none, []⟩
  channels := PollPoller.channels
  updateChannel := PollPoller.updateChannel fd
  removeChannel := PollPoller.removeChannel fd

namespace PollPoller

variable {Ch : Type}

/-- The slot at the `index_` of a channel. -/
def slot? (s : PollerState Ch (PollPoller Ch)) (c : Ch) : Option PollFd :=
  if 0 ≤ (s.channel c).index then s.poller.pollfds[(s.channel c).index.toNat]? else none

/-- The slot of the channel `c`: `poll` ignores it only if there are no events. -/
structure IsSlot (fd : Ch → ℕ) (s : PollerState Ch (PollPoller Ch)) (c : Ch) (p : PollFd) :
    Prop where
  fd_eq : p.fd = fd c ∨ p.fd = -(fd c : ℤ) - 1 ∧ (s.channel c).events = Channel.kNoneEvent
  events_eq : p.events = (s.channel c).events.setWidth 16

/-- The invariant of `PollPoller`: the registered channels have one slot each, and
there are no other slots. -/
structure Invariant (fd : Ch → ℕ) (s : PollerState Ch (PollPoller Ch)) : Prop where
  channels_key : ∀ k c, s.poller.channels k = some c → k = fd c
  slot : ∀ c, s.poller.channels (fd c) = some c → ∃ p, slot? s c = some p ∧ IsSlot fd s c p
  owner : ∀ i < s.poller.pollfds.length, ∃ c, s.poller.channels (fd c) = some c ∧
    (s.channel c).index = i
  fresh : ∀ c, (s.channel c).index < 0 → s.poller.channels (fd c) ≠ some c ∧
    (s.channel c).events = Channel.kNoneEvent

theorem slot?_eq_some {s : PollerState Ch (PollPoller Ch)} {c : Ch} {p : PollFd} :
    slot? s c = some p ↔ ∃ i : ℕ, (s.channel c).index = i ∧ s.poller.pollfds[i]? = some p := by
  unfold slot?
  constructor
  · intro h
    split at h
    · next hpos => exact ⟨_, (Int.toNat_of_nonneg hpos).symm, h⟩
    · cases h
  · intro ⟨i, hi, hp⟩
    rw [hi, if_pos (Int.natCast_nonneg i), Int.toNat_natCast, hp]

/-- The slot of a channel tells its file descriptor. -/
theorem IsSlot.key {fd : Ch → ℕ} {s : PollerState Ch (PollPoller Ch)} {c : Ch} {p : PollFd}
    (h : IsSlot fd s c p) : (if p.fd < 0 then -p.fd - 1 else p.fd) = fd c := by
  rcases h.fd_eq with heq | ⟨heq, -⟩
  · rw [heq, if_neg (by omega)]
  · rw [heq, if_pos (by omega)]
    omega

variable {fd : Ch → ℕ} {s : PollerState Ch (PollPoller Ch)} {c d : Ch}

theorem IsSlot.signExtend_events {p : PollFd} (h : IsSlot fd s c p) :
    p.events.signExtend 32 = (s.channel c).events := by
  rw [h.events_eq, Channel.signExtend_setWidth (s.channel c).masked]

/-- No two registered channels share a slot. -/
theorem Invariant.index_inj (inv : Invariant fd s) (hc : s.poller.channels (fd c) = some c)
    (hd : s.poller.channels (fd d) = some d) (h : (s.channel c).index = (s.channel d).index) :
    c = d := by
  obtain ⟨p, hp, hslot⟩ := inv.slot c hc
  obtain ⟨q, hq, hslot'⟩ := inv.slot d hd
  have heq : slot? s c = slot? s d := by rw [slot?, slot?, h]
  have hpq : p = q := Option.some.inj (hp.symm.trans (heq.trans hq))
  have hkey := hslot.key
  rw [hpq, hslot'.key] at hkey
  exact Poller.eq_of_fd hc hd (Int.ofNat.inj hkey).symm

theorem Invariant.index_lt (inv : Invariant fd s) (hc : s.poller.channels (fd c) = some c) :
    ∃ i : ℕ, (s.channel c).index = i ∧ i < s.poller.pollfds.length := by
  obtain ⟨p, hp, -⟩ := inv.slot c hc
  obtain ⟨i, hi, hget⟩ := slot?_eq_some.mp hp
  exact ⟨i, hi, (List.getElem?_eq_some_iff.mp hget).1⟩

/-! ## The member functions, on the states that they meet -/

section Functions

variable [DecidableEq Ch] {y : Channel}

/-- The slot that `updateChannel` writes for a channel that has a position. -/
def slotOf (fd : Ch → ℕ) (c : Ch) (y : Channel) : PollFd :=
  ⟨if y.isNoneEvent then -(fd c : ℤ) - 1 else fd c, y.events.setWidth 16, 0⟩

theorem updateChannel_new (hindex : y.index < 0) (hchannels : s.poller.channels (fd c) = none) :
    updateChannel fd (s.set c y) c = .ok
      { channel := Function.update s.channel c { y with index := s.poller.pollfds.length }
        poller := {
          channels := Function.update s.poller.channels (fd c) (some c)
          pollfds := s.poller.pollfds ++ [⟨fd c, y.events.setWidth 16, 0⟩] } } := by
  simp [updateChannel, hindex, hchannels, bind, Except.bind, pure, Except.pure]

theorem updateChannel_registered {i : ℕ} (hindex : y.index = i)
    (hchannels : s.poller.channels (fd c) = some c) {p : PollFd}
    (hp : s.poller.pollfds[i]? = some p) (hfd : p.fd = fd c ∨ p.fd = -(fd c : ℤ) - 1) :
    updateChannel fd (s.set c y) c = .ok
      { channel := Function.update s.channel c y
        poller := { s.poller with pollfds := s.poller.pollfds.set i (slotOf fd c y) } } := by
  have hlt : i < s.poller.pollfds.length := (List.getElem?_eq_some_iff.mp hp).1
  have hat := at?_natCast hp
  have hassert : (p.fd == fd c || p.fd == -(fd c : ℤ) - 1) = true := by
    simpa using hfd
  by_cases hnone : y.isNoneEvent = true
  · simp [updateChannel, hindex, hchannels, hlt, hat, hassert, hnone, slotOf, bind, Except.bind,
      pure, Except.pure, PollerState.set]
  · simp [updateChannel, hindex, hchannels, hlt, hat, hassert, hnone, slotOf, bind, Except.bind,
      pure, Except.pure, PollerState.set]

theorem updateChannel_stale (hindex : 0 ≤ y.index)
    (hchannels : s.poller.channels (fd c) ≠ some c) :
    updateChannel fd (s.set c y) c = .error .assertion := by
  have hneg : ¬ y.index < 0 := by omega
  have hassert : (s.poller.channels (fd c) == some c) = false :=
    beq_eq_false_iff_ne.mpr hchannels
  simp only [updateChannel, PollerState.set_channel, PollerState.set_poller, Function.update_self,
    if_neg hneg, hassert, check_false, bind, Except.bind]
  cases (s.poller.channels (fd c)).isSome <;> rfl

theorem updateChannel_taken (hindex : y.index < 0) (hchannels : s.poller.channels (fd c) ≠ none) :
    updateChannel fd (s.set c y) c = .error .assertion := by
  have hassert : (s.poller.channels (fd c)).isNone = false := by
    simpa [Option.isNone_eq_false_iff, Option.isSome_iff_ne_none] using hchannels
  simp [updateChannel, hindex, hassert, bind, Except.bind]

theorem removeChannel_of_ne (y : Channel) (h : s.poller.channels (fd c) ≠ some c) :
    removeChannel fd (s.set c y) c = .error .assertion := by
  have hassert : (s.poller.channels (fd c) == some c) = false := beq_eq_false_iff_ne.mpr h
  simp only [removeChannel, PollerState.set_poller, hassert, check_false, bind, Except.bind]
  cases (s.poller.channels (fd c)).isSome <;> rfl

section Remove

variable {i : ℕ} (hindex : y.index = i) (hchannels : s.poller.channels (fd c) = some c)
  (hnone : y.isNoneEvent = true) {p : PollFd} (hp : s.poller.pollfds[i]? = some p)
include hindex hchannels hnone hp

/-- A slot that `poll` does not ignore fails an `assert`. -/
theorem removeChannel_watched (hfd : p.fd = fd c) :
    removeChannel fd (s.set c y) c = .error .assertion := by
  have hlt : i < s.poller.pollfds.length := (List.getElem?_eq_some_iff.mp hp).1
  have hat := at?_natCast hp
  have hne : ((fd c : ℤ) == -(fd c : ℤ) - 1) = false := by
    rw [beq_eq_false_iff_ne]
    omega
  simp [removeChannel, hindex, hchannels, hnone, hlt, hat, hfd, hne, bind, Except.bind]

variable (hfd : p.fd = -(fd c : ℤ) - 1) (hevents : p.events.signExtend 32 = y.events)
include hfd hevents

theorem removeChannel_last (hlast : i = s.poller.pollfds.length - 1) :
    removeChannel fd (s.set c y) c = .ok
      { channel := Function.update s.channel c y
        poller := {
          channels := Function.update s.poller.channels (fd c) none
          pollfds := SwapRemove.swapRemove s.poller.pollfds i } } := by
  have hlt : i < s.poller.pollfds.length := (List.getElem?_eq_some_iff.mp hp).1
  have hat := at?_natCast hp
  have hpop : SwapRemove.swapRemove s.poller.pollfds i = s.poller.pollfds.dropLast := by
    rw [hlast, SwapRemove.swapRemove_last]
  have hassert : (p.fd == -(fd c : ℤ) - 1 && p.events.signExtend 32 == y.events) = true := by
    simp [hfd, hevents]
  rw [hpop]
  simp [removeChannel, hindex, hchannels, hnone, hlt, hat, hassert, ← hlast, bind, Except.bind,
    pure, Except.pure]

theorem removeChannel_swap (hlast : i ≠ s.poller.pollfds.length - 1) {q : PollFd}
    (hq : s.poller.pollfds[s.poller.pollfds.length - 1]? = some q) (hdc : d ≠ c)
    (hkey : (if q.fd < 0 then -q.fd - 1 else q.fd) = fd d)
    (hd : s.poller.channels (fd d) = some d) :
    removeChannel fd (s.set c y) c = .ok
      { channel := Function.update (Function.update s.channel c y) d
          { s.channel d with index := i }
        poller := {
          channels := Function.update s.poller.channels (fd c) none
          pollfds := SwapRemove.swapRemove s.poller.pollfds i } } := by
  have hlt : i < s.poller.pollfds.length := (List.getElem?_eq_some_iff.mp hp).1
  have hat := at?_natCast hp
  have hback := at?_natCast hq
  have hne : fd d ≠ fd c := Poller.Own.fd_ne (.inr hchannels) hd hdc
  have hassert : (p.fd == -(fd c : ℤ) - 1 && p.events.signExtend 32 == y.events) = true := by
    simp [hfd, hevents]
  have hend : (if q.fd < 0 then -q.fd - 1 else q.fd).toNat = fd d := by
    rw [hkey, Int.toNat_natCast]
  simp [removeChannel, hindex, hchannels, hnone, hlt, hat, hassert, hlast, hback, hend, hne, hd,
    hdc, bind, Except.bind, pure, Except.pure, PollerState.setIndex, PollerState.set,
    SwapRemove.swapRemove]

end Remove

end Functions

/-! ## What the operations do -/

section After

variable [DecidableEq Ch]

/-- A change at the channel `c`: it has the events `e` now and is registered or not,
and the other channels are where they were, or have moved together with their slots. -/
structure After (fd : Ch → ℕ) (s : PollerState Ch (PollPoller Ch)) (c : Ch) (e : BitVec 32)
    (o : Option Ch) (s' : PollerState Ch (PollPoller Ch)) : Prop where
  before : Poller.Own c (s.poller.channels (fd c))
  after : Poller.Own c o
  channels : s'.poller.channels = Function.update s.poller.channels (fd c) o
  events : ∀ d, (s'.channel d).events = Function.update (fun d => (s.channel d).events) c e d
  slot_self : o = some c → ∃ p, slot? s' c = some p ∧ IsSlot fd s' c p
  slot_other : ∀ d p, d ≠ c → s.poller.channels (fd d) = some d → slot? s d = some p →
    slot? s' d = some p
  owner : ∀ i < s'.poller.pollfds.length, ∃ d, s'.poller.channels (fd d) = some d ∧
    (s'.channel d).index = i
  index_neg : ∀ d, (s'.channel d).index < 0 ↔ (s.channel d).index < 0 ∧ d ≠ c

variable {e : BitVec 32} {o : Option Ch} {s' : PollerState Ch (PollPoller Ch)}

theorem After.channels_of_ne (h : After fd s c e o s') (hd : d ≠ c) :
    s'.poller.channels (fd d) = some d ↔ s.poller.channels (fd d) = some d := by
  rw [h.channels]
  by_cases hfd : fd d = fd c
  · rw [hfd, Function.update_self]
    exact iff_of_false (h.after.ne hd) (h.before.ne hd)
  · rw [Function.update_of_ne hfd]

theorem After.events_of_ne (h : After fd s c e o s') (hd : d ≠ c) :
    (s'.channel d).events = (s.channel d).events := by
  rw [h.events, Function.update_of_ne hd]

theorem After.interest (h : After fd s c e o s') : (pollPoller fd).interest fd s' =
    ⟨Function.update ((pollPoller fd).interest fd s).events c e,
      Function.update ((pollPoller fd).interest fd s).registered c (o = some c)⟩ :=
  Poller.interest_update h.events h.before h.after h.channels

/-- **Frame**: the other channels keep their slots. -/
theorem After.invariant (h : After fd s c e o s') (inv : Invariant fd s) :
    Invariant fd s' where
  channels_key k d hk := by
    rw [h.channels] at hk
    by_cases hfd : k = fd c
    · rw [hfd, Function.update_self] at hk
      rcases h.after with ho | ho
      · cases ho.symm.trans hk
      · rw [hfd, Option.some.inj (ho.symm.trans hk)]
    · rw [Function.update_of_ne hfd] at hk
      exact inv.channels_key k d hk
  slot d hd := by
    by_cases hdc : d = c
    · subst hdc
      rw [h.channels, Function.update_self] at hd
      exact h.slot_self hd
    · rw [h.channels_of_ne hdc] at hd
      obtain ⟨p, hp, hslot⟩ := inv.slot d hd
      refine ⟨p, h.slot_other d p hdc hd hp, ?_, ?_⟩
      · rw [h.events_of_ne hdc]
        exact hslot.fd_eq
      · rw [h.events_of_ne hdc]
        exact hslot.events_eq
  owner := h.owner
  fresh d hd := by
    obtain ⟨hneg, hdc⟩ := (h.index_neg d).mp hd
    rw [ne_eq, h.channels_of_ne hdc, h.events_of_ne hdc]
    exact inv.fresh d hneg

theorem events_update {y : Channel} (d : Ch) : (Function.update s.channel c y d).events =
    Function.update (fun d => (s.channel d).events) c y.events d := by
  by_cases hd : d = c
  · rw [hd, Function.update_self, Function.update_self]
  · rw [Function.update_of_ne hd, Function.update_of_ne hd]

/-- A new channel gets a slot at the end. -/
theorem Invariant.after_new (inv : Invariant fd s) (hindex : (s.channel c).index < 0)
    (hchannels : s.poller.channels (fd c) = none) (y : Channel) : After fd s c y.events (some c)
      { channel := Function.update s.channel c { y with index := s.poller.pollfds.length }
        poller := {
          channels := Function.update s.poller.channels (fd c) (some c)
          pollfds := s.poller.pollfds ++ [⟨fd c, y.events.setWidth 16, 0⟩] } } where
  before := .inl hchannels
  after := .inr rfl
  channels := rfl
  events d := events_update d
  slot_self _ := by
    refine ⟨⟨fd c, y.events.setWidth 16, 0⟩, slot?_eq_some.mpr ⟨s.poller.pollfds.length, ?_, ?_⟩,
      .inl rfl, ?_⟩
    · simp
    · simp
    · simp
  slot_other d p hdc hd hp := by
    obtain ⟨i, hi, hget⟩ := slot?_eq_some.mp hp
    have hlt : i < s.poller.pollfds.length := (List.getElem?_eq_some_iff.mp hget).1
    refine slot?_eq_some.mpr ⟨i, ?_, ?_⟩
    · simp [Function.update_of_ne hdc, hi]
    · rw [List.getElem?_append_left hlt, hget]
  owner i hi := by
    rw [List.length_append, List.length_singleton] at hi
    by_cases hlt : i < s.poller.pollfds.length
    · obtain ⟨d, hd, hdi⟩ := inv.owner i hlt
      have hdc : d ≠ c := by
        intro heq
        rw [heq] at hdi
        omega
      have hne : fd d ≠ fd c := Poller.Own.fd_ne (.inl hchannels) hd hdc
      exact ⟨d, by simp [Function.update_of_ne hne, hd], by simp [Function.update_of_ne hdc, hdi]⟩
    · refine ⟨c, by simp, ?_⟩
      simp only [Function.update_self]
      omega
  index_neg d := by
    by_cases hdc : d = c
    · simp only [hdc, Function.update_self, ne_eq, not_true_eq_false, and_false, iff_false]
      omega
    · simp [hdc]

/-- A registered channel keeps its position. -/
theorem Invariant.after_registered (inv : Invariant fd s)
    (hchannels : s.poller.channels (fd c) = some c) {i : ℕ} (hi : (s.channel c).index = i)
    (hlt : i < s.poller.pollfds.length) {y : Channel} (hy : y.index = i) :
    After fd s c y.events (some c)
      { channel := Function.update s.channel c y
        poller := { s.poller with pollfds := s.poller.pollfds.set i (slotOf fd c y) } } where
  before := .inr hchannels
  after := .inr rfl
  channels := by
    rw [← hchannels, Function.update_eq_self]
  events d := events_update d
  slot_self _ := by
    refine ⟨slotOf fd c y, slot?_eq_some.mpr ⟨i, ?_, List.getElem?_set_self hlt⟩, ?_, ?_⟩
    · simp [hy]
    · by_cases hnone : y.isNoneEvent = true
      · refine .inr ⟨by rw [slotOf, if_pos hnone], ?_⟩
        simpa using Channel.isNoneEvent_iff.mp hnone
      · exact .inl (by rw [slotOf, if_neg hnone])
    · simp [slotOf]
  slot_other d p hdc hd hp := by
    obtain ⟨j, hj, hget⟩ := slot?_eq_some.mp hp
    have hji : i ≠ j := by
      intro heq
      exact hdc (inv.index_inj hd hchannels (by rw [hj, hi, heq]))
    refine slot?_eq_some.mpr ⟨j, ?_, ?_⟩
    · simp [Function.update_of_ne hdc, hj]
    · rw [List.getElem?_set_ne hji, hget]
  owner j hj := by
    rw [List.length_set] at hj
    obtain ⟨d, hd, hdj⟩ := inv.owner j hj
    refine ⟨d, hd, ?_⟩
    by_cases hdc : d = c
    · simp [hdc, hy, ← hi, ← hdj]
    · simp [Function.update_of_ne hdc, hdj]
  index_neg d := by
    by_cases hdc : d = c
    · simp [hdc, hy]
    · simp [hdc]

/-- A removal closes the gap with the last slot, whose channel moves with it. -/
theorem Invariant.after_removed (inv : Invariant fd s)
    (hchannels : s.poller.channels (fd c) = some c) {i : ℕ} (hi : (s.channel c).index = i)
    (hlt : i < s.poller.pollfds.length) {channel : Ch → Channel}
    (hmoved : ∀ d, d ≠ c → s.poller.channels (fd d) = some d → (channel d).index =
      if (s.channel d).index = (s.poller.pollfds.length - 1 : ℕ) then (i : ℤ)
        else (s.channel d).index)
    (hevents : ∀ d, (channel d).events = (s.channel d).events)
    (hneg : ∀ d, (channel d).index < 0 ↔ (s.channel d).index < 0 ∧ d ≠ c) :
    After fd s c (s.channel c).events none
      { channel := channel
        poller := {
          channels := Function.update s.poller.channels (fd c) none
          pollfds := SwapRemove.swapRemove s.poller.pollfds i } } where
  before := .inr hchannels
  after := .inl rfl
  channels := rfl
  events d := by
    rw [hevents, Function.update_eq_self]
  slot_self h := by
    cases h
  slot_other d p hdc hd hp := by
    obtain ⟨j, hj, hget⟩ := slot?_eq_some.mp hp
    have hjlt : j < s.poller.pollfds.length := (List.getElem?_eq_some_iff.mp hget).1
    have hji : j ≠ i := by
      intro heq
      exact hdc (inv.index_inj hd hchannels (by rw [hj, hi, heq]))
    have hindex := hmoved d hdc hd
    rw [hj] at hindex
    by_cases hlast : j = s.poller.pollfds.length - 1
    · rw [if_pos (by rw [hlast])] at hindex
      refine slot?_eq_some.mpr ⟨i, hindex, ?_⟩
      rw [SwapRemove.getElem?_swapRemove hlt, if_pos (by omega), if_pos rfl, ← hlast, hget]
    · rw [if_neg (by omega)] at hindex
      refine slot?_eq_some.mpr ⟨j, hindex, ?_⟩
      rw [SwapRemove.getElem?_swapRemove hlt, if_pos (by omega), if_neg hji, hget]
  owner j hj := by
    rw [SwapRemove.length_swapRemove] at hj
    have howner : ∀ k d, s.poller.channels (fd d) = some d → (s.channel d).index = (k : ℕ) →
        k ≠ i → Function.update s.poller.channels (fd c) none (fd d) = some d ∧ d ≠ c := by
      intro k d hd hk hki
      have hdc : d ≠ c := by
        intro heq
        rw [heq, hi] at hk
        omega
      rw [Function.update_of_ne (Poller.Own.fd_ne (.inr hchannels) hd hdc)]
      exact ⟨hd, hdc⟩
    by_cases hji : j = i
    · -- the last slot has been moved here
      obtain ⟨d, hd, hlast⟩ := inv.owner (s.poller.pollfds.length - 1) (by omega)
      obtain ⟨hd', hdc⟩ := howner _ d hd hlast (by omega)
      exact ⟨d, hd', by rw [hmoved d hdc hd, if_pos hlast, hji]⟩
    · obtain ⟨d, hd, hdj⟩ := inv.owner j (by omega)
      obtain ⟨hd', hdc⟩ := howner j d hd hdj hji
      exact ⟨d, hd', by rw [hmoved d hdc hd, if_neg (by omega), hdj]⟩
  index_neg := hneg

section Removed

variable {i : ℕ} {y : Channel}

/-- The channel of the last slot is removed. -/
theorem Invariant.after_last (inv : Invariant fd s)
    (hchannels : s.poller.channels (fd c) = some c) (hi : (s.channel c).index = i)
    (hlt : i < s.poller.pollfds.length) (hlast : i = s.poller.pollfds.length - 1)
    (hy : y.index = i) (hevents : y.events = (s.channel c).events) :
    After fd s c (s.channel c).events none
      { channel := Function.update s.channel c y
        poller := {
          channels := Function.update s.poller.channels (fd c) none
          pollfds := SwapRemove.swapRemove s.poller.pollfds i } } := by
  refine inv.after_removed hchannels hi hlt (fun d hdc hd => ?_) (fun d => ?_) fun d => ?_
  · have hne : (s.channel d).index ≠ (s.poller.pollfds.length - 1 : ℕ) := by
      intro heq
      exact hdc (inv.index_inj hd hchannels (by rw [heq, hi, hlast]))
    rw [if_neg hne, Function.update_of_ne hdc]
  · by_cases hdc : d = c
    · rw [hdc, Function.update_self, hevents]
    · rw [Function.update_of_ne hdc]
  · by_cases hdc : d = c
    · simp [hdc, hy]
    · simp [hdc]

/-- The channel `d` of the last slot moves to the slot of the removed one. -/
theorem Invariant.after_swap (inv : Invariant fd s)
    (hchannels : s.poller.channels (fd c) = some c) (hi : (s.channel c).index = i)
    (hlt : i < s.poller.pollfds.length) (hd : s.poller.channels (fd d) = some d)
    (hdlast : (s.channel d).index = (s.poller.pollfds.length - 1 : ℕ))
    (hy : y.index = i) (hevents : y.events = (s.channel c).events) :
    After fd s c (s.channel c).events none
      { channel := Function.update (Function.update s.channel c y) d
          { s.channel d with index := i }
        poller := {
          channels := Function.update s.poller.channels (fd c) none
          pollfds := SwapRemove.swapRemove s.poller.pollfds i } } := by
  refine inv.after_removed hchannels hi hlt (fun d' hdc' hd' => ?_) (fun d' => ?_) fun d' => ?_
  · by_cases hdd : d' = d
    · rw [hdd, Function.update_self, if_pos hdlast]
    · have hne : (s.channel d').index ≠ (s.poller.pollfds.length - 1 : ℕ) := by
        intro heq
        exact hdd (inv.index_inj hd' hd (by rw [heq, hdlast]))
      rw [if_neg hne, Function.update_of_ne hdd, Function.update_of_ne hdc']
  · by_cases hdd : d' = d
    · rw [hdd, Function.update_self]
    · rw [Function.update_of_ne hdd]
      by_cases hdc' : d' = c
      · rw [hdc', Function.update_self, hevents]
      · rw [Function.update_of_ne hdc']
  · by_cases hdd : d' = d
    · rw [hdd, Function.update_self]
      show (i : ℤ) < 0 ↔ (s.channel d).index < 0 ∧ d ≠ c
      omega
    · rw [Function.update_of_ne hdd]
      by_cases hdc' : d' = c
      · simp [hdc', hy]
      · simp [hdc']

end Removed

/-- The spec of the first operation on a channel. -/
theorem Invariant.call_new (inv : Invariant fd s) (hindex : (s.channel c).index < 0)
    (hchannels : s.poller.channels (fd c) = none) (x : Channel.Change) :
    ∃ s', (pollPoller fd).call s (c, .change x) = .ok s' ∧
      After fd s c (x.apply (s.channel c).events) (some c) s' ∧
      slot? s' c = some ⟨fd c, (x.apply (s.channel c).events).setWidth 16, 0⟩ := by
  let y : Channel := { (s.channel c).change x with addedToLoop := true }
  have hcall := (Poller.call_change (pollPoller fd) s c x).trans
    (updateChannel_new (y := y) hindex hchannels)
  refine ⟨_, hcall, inv.after_new hindex hchannels y,
    slot?_eq_some.mpr ⟨s.poller.pollfds.length, ?_, ?_⟩⟩
  · simp
  · simp [y, Channel.change]

/-- The spec of the later operations. -/
theorem Invariant.call_registered (inv : Invariant fd s)
    (hchannels : s.poller.channels (fd c) = some c) (x : Channel.Change) :
    ∃ s', (pollPoller fd).call s (c, .change x) = .ok s' ∧
      After fd s c (x.apply (s.channel c).events) (some c) s' ∧
      slot? s' c = some (slotOf fd c ((s.channel c).change x)) := by
  let y : Channel := { (s.channel c).change x with addedToLoop := true }
  obtain ⟨p, hp, hslot⟩ := inv.slot c hchannels
  obtain ⟨i, hi, hget⟩ := slot?_eq_some.mp hp
  have hlt : i < s.poller.pollfds.length := (List.getElem?_eq_some_iff.mp hget).1
  have hcall := (Poller.call_change (pollPoller fd) s c x).trans
    (updateChannel_registered (y := y) hi hchannels hget (hslot.fd_eq.imp_right And.left))
  refine ⟨_, hcall, inv.after_registered (y := y) hchannels hi hlt hi,
    slot?_eq_some.mpr ⟨i, ?_, ?_⟩⟩
  · simp [y, Channel.change, hi]
  · exact List.getElem?_set_self hlt

/-- A channel that has been removed cannot be used again: its `index_` is not reset. -/
theorem call_change_stale (hindex : 0 ≤ (s.channel c).index)
    (hchannels : s.poller.channels (fd c) ≠ some c) (x : Channel.Change) :
    (pollPoller fd).call s (c, .change x) = .error .assertion :=
  (Poller.call_change (pollPoller fd) s c x).trans (updateChannel_stale hindex hchannels)

/-- A new channel cannot take the file descriptor of a registered one. -/
theorem call_change_taken (hindex : (s.channel c).index < 0)
    (hchannels : s.poller.channels (fd c) ≠ none) (x : Channel.Change) :
    (pollPoller fd).call s (c, .change x) = .error .assertion :=
  (Poller.call_change (pollPoller fd) s c x).trans (updateChannel_taken hindex hchannels)

/-- The spec of `remove`, for a slot that `poll` ignores. -/
theorem Invariant.call_remove (inv : Invariant fd s)
    (hchannels : s.poller.channels (fd c) = some c)
    (hevents : (s.channel c).events = Channel.kNoneEvent) {p : PollFd}
    (hp : slot? s c = some p) (hfd : p.fd ≠ fd c) :
    ∃ s', (pollPoller fd).call s (c, .remove) = .ok s' ∧
      After fd s c (s.channel c).events none s' := by
  let y : Channel := { s.channel c with addedToLoop := false }
  have hnone : y.isNoneEvent = true := Channel.isNoneEvent_iff.mpr hevents
  obtain ⟨i, hi, hget⟩ := slot?_eq_some.mp hp
  have hlt : i < s.poller.pollfds.length := (List.getElem?_eq_some_iff.mp hget).1
  have hslot : IsSlot fd s c p := by
    obtain ⟨q, hq, hslot⟩ := inv.slot c hchannels
    cases hp.symm.trans hq
    exact hslot
  have hparked : p.fd = -(fd c : ℤ) - 1 := (hslot.fd_eq.resolve_left hfd).1
  have hmask : p.events.signExtend 32 = y.events := hslot.signExtend_events
  have hcall := Poller.call_remove (pollPoller fd) (s := s) (c := c) hnone
  by_cases hlast : i = s.poller.pollfds.length - 1
  · exact ⟨_, hcall.trans (removeChannel_last (y := y) hi hchannels hnone hget hparked hmask hlast),
      inv.after_last hchannels hi hlt hlast hi rfl⟩
  · obtain ⟨d, hd, hdlast⟩ := inv.owner (s.poller.pollfds.length - 1) (by omega)
    obtain ⟨q, hq, hslot'⟩ := inv.slot d hd
    obtain ⟨j, hj, hgetj⟩ := slot?_eq_some.mp hq
    obtain rfl : s.poller.pollfds.length - 1 = j := by omega
    have hdc : d ≠ c := by
      intro heq
      rw [heq] at hdlast
      omega
    exact ⟨_, hcall.trans (removeChannel_swap (y := y) hi hchannels hnone hget hparked hmask hlast
      hgetj hdc hslot'.key hd), inv.after_swap hchannels hi hlt hd hdlast hi rfl⟩

/-- When `remove` does not fail. -/
theorem of_call_remove (inv : Invariant fd s)
    (h : (pollPoller fd).call s (c, .remove) = .ok s') :
    s.poller.channels (fd c) = some c ∧ (s.channel c).events = Channel.kNoneEvent ∧
      ∃ p, slot? s c = some p ∧ p.fd ≠ fd c := by
  have hnone : (s.channel c).isNoneEvent = true := Poller.isNoneEvent_of_call_remove h
  rw [Poller.call_remove _ hnone] at h
  have hchannels : s.poller.channels (fd c) = some c := by
    by_contra hne
    cases (removeChannel_of_ne _ hne).symm.trans h
  obtain ⟨p, hp, hslot⟩ := inv.slot c hchannels
  refine ⟨hchannels, Channel.isNoneEvent_iff.mp hnone, p, hp, fun hfd => ?_⟩
  obtain ⟨i, hi, hget⟩ := slot?_eq_some.mp hp
  let y : Channel := { s.channel c with addedToLoop := false }
  cases (removeChannel_watched (y := y) hi hchannels hnone hget hfd).symm.trans h

/-- What an operation that does not fail has done. -/
inductive Effect (fd : Ch → ℕ) (s : PollerState Ch (PollPoller Ch)) :
    Ch × Channel.Op → PollerState Ch (PollPoller Ch) → Prop
  | new {c : Ch} {x : Channel.Change} {s' : PollerState Ch (PollPoller Ch)}
      (hindex : (s.channel c).index < 0)
      (hafter : After fd s c (x.apply (s.channel c).events) (some c) s')
      (hslot : slot? s' c = some ⟨fd c, (x.apply (s.channel c).events).setWidth 16, 0⟩) :
      Effect fd s (c, .change x) s'
  | registered {c : Ch} {x : Channel.Change} {s' : PollerState Ch (PollPoller Ch)}
      (hchannels : s.poller.channels (fd c) = some c)
      (hafter : After fd s c (x.apply (s.channel c).events) (some c) s')
      (hslot : slot? s' c = some (slotOf fd c ((s.channel c).change x))) :
      Effect fd s (c, .change x) s'
  | removed {c : Ch} {p : PollFd} {s' : PollerState Ch (PollPoller Ch)}
      (hchannels : s.poller.channels (fd c) = some c)
      (hevents : (s.channel c).events = Channel.kNoneEvent)
      (hslot : slot? s c = some p) (hfd : p.fd ≠ fd c)
      (hafter : After fd s c (s.channel c).events none s') :
      Effect fd s (c, .remove) s'

theorem Invariant.effect (inv : Invariant fd s) {x : Ch × Channel.Op}
    (h : (pollPoller fd).call s x = .ok s') : Effect fd s x s' := by
  obtain ⟨c, op⟩ := x
  cases op with
  | change x =>
    by_cases hindex : (s.channel c).index < 0
    · by_cases hchannels : s.poller.channels (fd c) = none
      · obtain ⟨t, hcall, hafter, hslot⟩ := inv.call_new hindex hchannels x
        cases hcall.symm.trans h
        exact .new hindex hafter hslot
      · cases (call_change_taken hindex hchannels x).symm.trans h
    · by_cases hchannels : s.poller.channels (fd c) = some c
      · obtain ⟨t, hcall, hafter, hslot⟩ := inv.call_registered hchannels x
        cases hcall.symm.trans h
        exact .registered hchannels hafter hslot
      · cases (call_change_stale (by omega) hchannels x).symm.trans h
  | remove =>
    obtain ⟨hchannels, hnone, p, hp, hfd⟩ := of_call_remove inv h
    obtain ⟨t, hcall, hafter⟩ := inv.call_remove hchannels hnone hp hfd
    cases hcall.symm.trans h
    exact .removed hchannels hnone hp hfd hafter

/-- `PollPoller` does what the operations ask for. -/
theorem refines (fd : Ch → ℕ) : (pollPoller fd).Refines fd (Invariant fd) where
  fresh := by
    refine ⟨⟨nofun, nofun, fun i h => ?_, fun c h => ⟨nofun, rfl⟩⟩, rfl⟩
    exact absurd h (Nat.not_lt_zero i)
  call {s s' x} inv h := by
    have heffect := inv.effect h
    cases heffect with
    | new _ hafter _ =>
      refine ⟨hafter.invariant inv, ?_⟩
      rw [hafter.interest, decide_eq_true rfl]
      rfl
    | registered _ hafter _ =>
      refine ⟨hafter.invariant inv, ?_⟩
      rw [hafter.interest, decide_eq_true rfl]
      rfl
    | removed _ _ _ _ hafter =>
      refine ⟨hafter.invariant inv, ?_⟩
      rw [hafter.interest, decide_eq_false nofun]
      apply Interest.ext
      · exact Function.update_eq_self ..
      · rfl

omit [DecidableEq Ch] in
/-- Distinct channels do not compete for a file descriptor. -/
theorem Invariant.channels_eq_none {fd : Ch ↪ ℕ} (inv : Invariant fd s)
    (hindex : (s.channel c).index < 0) : s.poller.channels (fd c) = none := by
  by_contra hne
  obtain ⟨d, hd⟩ := Option.ne_none_iff_exists'.mp hne
  obtain rfl := fd.injective (inv.channels_key _ d hd)
  exact (inv.fresh c hindex).1 hd

end After

end PollPoller

end Dxian
