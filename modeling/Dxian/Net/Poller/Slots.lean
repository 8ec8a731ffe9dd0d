import Dxian.Net.Dispatch.Pollers
import Dxian.Net.Poller.Interchange
import Mathlib.Data.Set.Card

/-!
# The slots of `PollPoller`

The vector `pollfds_` and the map `channels_` describe the same set of channels: the
`index_` of a registered channel is the position of its slot, and the `fd` of a slot,
negated or not, is the key of its channel. A removal puts the last slot into the hole
and finds the channel of that slot through the key.

The calls are those of lists that `removeChannel` agrees to, with no use of a channel
after its removal. A call of `updateChannel` without a change of `events_` is the call
of a change that leaves `events_` as they are.

## Main results

- `SlotTable` — slots, keys and channels are in bijection
- `exists_run` — such a list of calls fails no `assert`
- `fillActiveChannels_reported` — every slot with an event gives its channel
- `slots_bijective` — all of it, in every state of every run
-/

namespace Dxian

open Transition

namespace PollPoller

variable {Ch : Type} {fd : Ch → ℕ} {s s' : PollerState Ch (PollPoller Ch)} {c d : Ch}

/-- Slots, keys and channels are in bijection. -/
structure SlotTable (fd : Ch → ℕ) (s : PollerState Ch (PollPoller Ch)) : Prop where
  size : Set.encard {k | (s.poller.channels k).isSome} = s.poller.pollfds.length
  slot : ∀ k c, s.poller.channels k = some c → k = fd c ∧
    ∃ (i : ℕ) (p : PollFd), (s.channel c).index = i ∧ s.poller.pollfds[i]? = some p ∧
      (p.fd = fd c ∨ p.fd = -(fd c : ℤ) - 1) ∧ p.events = (s.channel c).events.setWidth 16
  index_inj : ∀ j k c d, s.poller.channels j = some c → s.poller.channels k = some d →
    (s.channel c).index = (s.channel d).index → c = d

/-- Every key has one position, every position one key. -/
theorem Invariant.encard_channels (inv : Invariant fd s) :
    Set.encard {k | (s.poller.channels k).isSome} = s.poller.pollfds.length := by
  choose owner howner hindex using fun i : Fin s.poller.pollfds.length => inv.owner i i.isLt
  have hinj : Function.Injective fun i => fd (owner i) := by
    intro i j hij
    have heq : owner i = owner j := Poller.eq_of_fd (howner i) (howner j) hij
    have hi := hindex i
    rw [heq, hindex j] at hi
    exact Fin.ext (by omega)
  have hrange : Set.range (fun i => fd (owner i)) = {k | (s.poller.channels k).isSome} := by
    ext k
    constructor
    · rintro ⟨i, rfl⟩
      exact Option.isSome_iff_exists.mpr ⟨owner i, howner i⟩
    · intro hk
      obtain ⟨c, hc⟩ := Option.isSome_iff_exists.mp hk
      obtain rfl := inv.channels_key k c hc
      obtain ⟨i, hi, hlt⟩ := inv.index_lt hc
      have howns := inv.index_inj (howner ⟨i, hlt⟩) hc ((hindex ⟨i, hlt⟩).trans hi.symm)
      exact ⟨⟨i, hlt⟩, congrArg fd howns⟩
  rw [← hrange, ← Set.image_univ, hinj.encard_image, Set.encard_univ,
    ENat.card_eq_coe_fintype_card, Fintype.card_fin]

theorem Invariant.slotTable (inv : Invariant fd s) : SlotTable fd s where
  size := inv.encard_channels
  slot k c hc := by
    obtain rfl := inv.channels_key k c hc
    obtain ⟨p, hp, hslot⟩ := inv.slot c hc
    obtain ⟨i, hi, hget⟩ := slot?_eq_some.mp hp
    exact ⟨rfl, i, p, hi, hget, hslot.fd_eq.imp_right And.left, hslot.events_eq⟩
  index_inj j k c d hc hd h := by
    obtain rfl := inv.channels_key j c hc
    obtain rfl := inv.channels_key k d hd
    exact inv.index_inj hc hd h

/-- A slot with a registered channel's key is the channel's slot. -/
theorem Invariant.slot?_of_fd (inv : Invariant fd s) (hc : s.poller.channels (fd c) = some c)
    {p : PollFd} (hp : p ∈ s.poller.pollfds) (hfd : p.fd = fd c) : slot? s c = some p := by
  obtain ⟨i, hi⟩ := List.mem_iff_getElem?.mp hp
  obtain ⟨d, hd, hindex, hslot⟩ := inv.of_pollfds hi
  have hkey := hslot.key
  rw [hfd, if_neg (by omega)] at hkey
  obtain rfl := Poller.eq_of_fd hc hd (Int.ofNat.inj hkey)
  exact slot?_eq_some.mpr ⟨i, hindex, hi⟩

/-! ## The calls -/

section Calls

variable [DecidableEq Ch] {fd : Ch ↪ ℕ} {v w : List (Ch × Channel.Op)}

/-- The assertions of `removeChannel`. -/
def RemoveAsserts (fd : Ch ↪ ℕ) (s : PollerState Ch (PollPoller Ch)) (c : Ch) : Bool :=
  s.poller.channels (fd c) == some c && (s.channel c).isNoneEvent && (slot? s c).any fun pfd =>
    pfd.fd == -(fd c : ℤ) - 1 && pfd.events.signExtend 32 == (s.channel c).events

/-- A channel is not used after its removal, and `removeChannel` agrees to a removal. -/
def Careful (fd : Ch ↪ ℕ) (v : List (Ch × Channel.Op)) : Ch × Channel.Op → Prop
  | (c, .change _) => (c, .remove) ∉ v
  | (c, .remove) => (c, .remove) ∉ v ∧
      ∀ s, (pollPoller fd).system.Run (pollPoller fd).fresh v s → RemoveAsserts fd s c

theorem careful_change {x : Channel.Change} (h : (c, .remove) ∉ v) :
    Careful fd v (c, .change x) := h

theorem careful_remove (h : (c, .remove) ∉ v) (hs : ∀ s,
    (pollPoller fd).system.Run (pollPoller fd).fresh v s → RemoveAsserts fd s c) :
    Careful fd v (c, .remove) := ⟨h, hs⟩

/-- A removal that meets the assertions. -/
theorem exists_remove_of_asserts (inv : Invariant fd s) (h : RemoveAsserts fd s c) :
    ∃ s', (pollPoller fd).call s (c, .remove) = .ok s' := by
  simp only [RemoveAsserts, Bool.and_eq_true, beq_iff_eq] at h
  obtain ⟨⟨hchannels, hnone⟩, hslot⟩ := h
  obtain ⟨p, hp, hasserts⟩ := (Option.any_eq_true ..).mp hslot
  rw [Bool.and_eq_true, beq_iff_eq, beq_iff_eq] at hasserts
  have hparked : p.fd ≠ fd c := by
    rw [hasserts.1]
    omega
  obtain ⟨s', hcall, -⟩ :=
    inv.call_remove hchannels (Channel.isNoneEvent_iff.mp hnone) hp hparked
  exact ⟨s', hcall⟩

/-- Careful calls fail no `assert`. -/
theorem exists_run (hw : System.Respects (Careful fd) w) :
    ∃ s, (pollPoller fd).system.Run (pollPoller fd).fresh w s := by
  refine hw.exists_run fun {v s x} hv hx => ?_
  obtain ⟨c, op⟩ := x
  cases op with
  | change x => exact exists_change hv hx x
  | remove => exact exists_remove_of_asserts ((refines fd).run hv).1 (hx.2 s hv)

/-- **Frame**: a removal leaves the registration of the other channels as it is. -/
theorem Invariant.remove_frame (inv : Invariant fd s)
    (h : (pollPoller fd).call s (c, .remove) = .ok s') :
    s'.poller.channels (fd c) = none ∧ ∀ d, d ≠ c →
      s'.poller.channels (fd d) = s.poller.channels (fd d) ∧
      (s'.channel d).events = (s.channel d).events ∧
      (s.poller.channels (fd d) = some d → slot? s' d = slot? s d) := by
  have heffect := inv.effect h
  cases heffect with
  | removed _ _ _ _ hafter =>
    refine ⟨by rw [hafter.channels, Function.update_self], fun d hd => ?_⟩
    refine ⟨?_, hafter.events_of_ne hd, fun hchannels => ?_⟩
    · rw [hafter.channels, Function.update_of_ne (fd.injective.ne hd)]
    obtain ⟨p, hp, -⟩ := inv.slot d hchannels
    rw [hp]
    exact hafter.slot_other d p hd hchannels hp

end Calls

/-! ## What `poll` reports -/

/-- `POLLERR`, `POLLHUP` and `POLLNVAL`, which `poll` reports without being asked. -/
def pollUnasked : BitVec 16 := 0x008 ||| 0x010 ||| 0x020

/-- `poll` reports the events that it is asked for, and those three. -/
def Asked (s : PollerState Ch (PollPoller Ch)) (answer : ℕ → BitVec 16) : Prop :=
  ∀ i p, s.poller.pollfds[i]? = some p → answer i &&& ~~~(p.events ||| pollUnasked) = 0

/-- No event is the sign bit of a `short`. -/
theorem msb_events {e : BitVec 32} (he : e ∈ Channel.masks) :
    (e.setWidth 16 ||| pollUnasked).msb = false := by
  rcases Channel.mem_masks.mp he with rfl | rfl | rfl | rfl <;> decide

/-- A `short` that is not negative is positive or zero. -/
theorem toInt_pos_iff {x : BitVec 16} (h : x.msb = false) : 0 < x.toInt ↔ x ≠ 0 := by
  rw [BitVec.toInt_eq_toNat_of_msb h, ne_eq, ← BitVec.toNat_inj]
  show (0 : ℤ) < x.toNat ↔ ¬ x.toNat = 0
  omega

/-- The test `revents > 0` finds the reported slots, which are none of the ignored ones. -/
theorem Invariant.reported_iff (inv : Invariant fd s) {answer : ℕ → BitVec 16}
    (ha : Answers s (some answer)) (hasked : Asked s answer) {q : PollFd}
    (hq : q ∈ (PollPoller.setRevents s answer).poller.pollfds) :
    0 < q.revents.toInt ↔ q.revents ≠ 0 ∧ 0 ≤ q.fd := by
  obtain ⟨i, hi⟩ := List.mem_iff_getElem?.mp hq
  obtain ⟨p, hp, rfl⟩ := getElem?_setRevents.mp hi
  obtain ⟨c, -, -, hslot⟩ := inv.of_pollfds hp
  have hmsb : (answer i).msb = false := by
    have hzero := congrArg BitVec.msb (hasked i p hp)
    rw [hslot.events_eq, BitVec.msb_and, BitVec.msb_not, msb_events (s.channel c).masked] at hzero
    simpa using hzero
  rw [toInt_pos_iff hmsb, iff_self_and]
  intro hne
  by_contra hneg
  exact hne (ha i p hp (by simpa using hneg))

variable [DecidableEq Ch]

/-- Every slot with an event and a key that is not negated gives the channel whose slot
it is, in the order of the slots. -/
theorem Invariant.fillActiveChannels_reported (inv : Invariant fd s) {answer : ℕ → BitVec 16}
    (ha : Answers s (some answer)) (hasked : Asked s answer) (revents : Ch → BitVec 32) :
    ∃ revents' activeChannels,
      fillActiveChannels fd s.poller.channels (PollPoller.setRevents s answer).poller.pollfds
        revents = .ok (revents', activeChannels) ∧
      List.Forall₂ (fun p c => s.poller.channels p.fd.toNat = some c ∧
          slot? (PollPoller.setRevents s answer) c = some p)
        ((PollPoller.setRevents s answer).poller.pollfds.filter fun p => p.revents ≠ 0 ∧ 0 ≤ p.fd)
        activeChannels := by
  obtain ⟨revents', active, hfill, hactive⟩ := fillActiveChannels_forall₂
    (PollPoller.setRevents s answer).poller.pollfds (fun q hq => inv.of_revents ha hq) revents
  have hfilter : (PollPoller.setRevents s answer).poller.pollfds.filter
        (fun p => p.revents ≠ 0 ∧ 0 ≤ p.fd) =
      (PollPoller.setRevents s answer).poller.pollfds.filter fun p => 0 < p.revents.toInt :=
    List.filter_congr fun q hq => decide_eq_decide.mpr (inv.reported_iff ha hasked hq).symm
  refine ⟨revents', active, hfill, ?_⟩
  rw [hfilter]
  obtain ⟨hlen, hget⟩ := List.forall₂_iff_get.mp hactive
  refine List.forall₂_iff_get.mpr ⟨hlen, fun i hi hi' => ?_⟩
  obtain ⟨hfd, hchannels⟩ := hget i hi hi'
  have hmem := (List.mem_filter.mp (List.get_mem _ ⟨i, hi⟩)).1
  refine ⟨?_, (inv.setRevents answer).slot?_of_fd hchannels hmem hfd⟩
  rw [hfd, Int.toNat_natCast, hchannels]

/-- **The slot table stays a bijection.** Let every removal of a list of calls meet the
assertions of `removeChannel`, and no channel be used after its removal. Then no call
fails, and in every state slots, keys and channels are in bijection; whatever `poll`
answers there, every slot with an event gives the one channel whose slot it is; and a
removal leaves the registration of every other channel as it is. -/
theorem slots_bijective (fd : Ch ↪ ℕ) {w : List (Ch × Channel.Op)}
    (hw : System.Respects (Careful fd) w) :
    (∃ s, (pollPoller fd).system.Run (pollPoller fd).fresh w s) ∧
    ∀ v s, v <+: w → (pollPoller fd).system.Run (pollPoller fd).fresh v s →
      SlotTable fd s ∧
      (∀ answer, Answers s (some answer) → Asked s answer → ∀ revents,
        ∃ revents' activeChannels,
          fillActiveChannels fd s.poller.channels (setRevents s answer).poller.pollfds revents =
            .ok (revents', activeChannels) ∧
          List.Forall₂ (fun p c => s.poller.channels p.fd.toNat = some c ∧
              slot? (setRevents s answer) c = some p)
            ((setRevents s answer).poller.pollfds.filter fun p => p.revents ≠ 0 ∧ 0 ≤ p.fd)
            activeChannels) ∧
      ∀ c s', (pollPoller fd).call s (c, .remove) = .ok s' →
        s'.poller.channels (fd c) = none ∧ ∀ d, d ≠ c →
          s'.poller.channels (fd d) = s.poller.channels (fd d) ∧
          (s'.channel d).events = (s.channel d).events ∧
          (s.poller.channels (fd d) = some d → slot? s' d = slot? s d) := by
  refine ⟨exists_run hw, fun v s _ hv => ?_⟩
  have inv := ((refines fd).run hv).1
  exact ⟨inv.slotTable, fun answer ha hasked => inv.fillActiveChannels_reported ha hasked,
    fun c s' h => inv.remove_frame h⟩

/-- Channel 0, whose slot is ignored as -1, is removed, and the last slot takes its place. -/
theorem slots_bijective_swap : ∃ s,
    (pollPoller (Function.Embedding.refl ℕ)).system.Run
      (pollPoller (Function.Embedding.refl ℕ)).fresh [(0, .change .enableReading),
        (3, .change .enableReading), (0, .change .disableAll), (0, .remove)] s ∧
      SlotTable (Function.Embedding.refl ℕ) s ∧ s.poller.pollfds = [⟨3, 3, 0⟩] := by
  have hfirst := System.respects_append_singleton.mpr ⟨System.respects_nil
    (Careful (Function.Embedding.refl ℕ)),
    careful_change (c := 0) (x := .enableReading) (by decide)⟩
  have hsecond := System.respects_append_singleton.mpr ⟨hfirst,
    careful_change (c := 3) (x := .enableReading) (by decide)⟩
  have hdisable := System.respects_append_singleton.mpr ⟨hsecond,
    careful_change (c := 0) (x := .disableAll) (by decide)⟩
  have hremove := System.respects_append_singleton.mpr ⟨hdisable,
    careful_remove (c := 0) (by decide) fun s hs => Poller.of_run
      (Q := fun s => RemoveAsserts (Function.Embedding.refl ℕ) s 0) (by decide) hs⟩
  obtain ⟨⟨s, hs⟩, htable⟩ := slots_bijective (Function.Embedding.refl ℕ) hremove
  have hslots : s.poller.pollfds = [⟨3, 3, 0⟩] := of_decide_eq_true
    (Poller.of_run (Q := fun s => decide (s.poller.pollfds = [⟨3, 3, 0⟩])) (by decide) hs)
  exact ⟨s, hs, (htable _ s List.prefix_rfl hs).1, hslots⟩

end PollPoller

end Dxian
