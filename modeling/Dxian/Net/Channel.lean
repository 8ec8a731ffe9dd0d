import Dxian.Base.Fault
import Dxian.Lib.Transition
import Mathlib.Logic.Embedding.Basic

/-!
# Channels and pollers

A `Channel` is the interest of one file descriptor; its operations change the
interest and pass it on to the poller of the loop. The pollers are subclasses of
`Poller`, a record of functions here, so that what holds of every poller is said
once.

The pointers to channels are a type `Ch`, and `fd` gives the file descriptor of
each: `fd_` is a constant of the object. The number of a file descriptor that has been
closed is given to the next one, so two channels may have the same, one after the other;
where `fd` is an embedding, the channels of a loop have distinct ones.

## Main definitions

- `Channel`, `Poller`, `Poller.call` — as in the source
- `Interest` — the abstract state: who is registered, and for what
- `Poller.Refines` — a poller does to its state what the calls say
-/

namespace Dxian

open Transition

/-- `POLLIN`. -/
def pollIn : BitVec 32 := 0x001

/-- `POLLPRI`. -/
def pollPri : BitVec 32 := 0x002

/-- `POLLOUT`. -/
def pollOut : BitVec 32 := 0x004

namespace Channel

def kNoneEvent : BitVec 32 := 0

def kReadEvent : BitVec 32 := pollIn ||| pollPri

def kWriteEvent : BitVec 32 := pollOut

/-- The operations that change `events_`. -/
inductive Change
  | enableReading
  | disableReading
  | enableWriting
  | disableWriting
  | disableAll
deriving DecidableEq

/-- What an operation makes of `events_`. -/
def Change.apply : Change → BitVec 32 → BitVec 32
  | enableReading, events => events ||| kReadEvent
  | disableReading, events => events &&& ~~~kReadEvent
  | enableWriting, events => events ||| kWriteEvent
  | disableWriting, events => events &&& ~~~kWriteEvent
  | disableAll, _ => kNoneEvent

/-- The values that `events_` can take. -/
def masks : List (BitVec 32) := [kNoneEvent, kReadEvent, kWriteEvent, kReadEvent ||| kWriteEvent]

theorem mem_masks {e : BitVec 32} : e ∈ masks ↔
    e = kNoneEvent ∨ e = kReadEvent ∨ e = kWriteEvent ∨ e = kReadEvent ||| kWriteEvent := by
  simp [masks]

theorem Change.apply_mem_masks (x : Change) (e : BitVec 32) (he : e ∈ masks) :
    x.apply e ∈ masks := by
  rcases mem_masks.mp he with rfl | rfl | rfl | rfl <;> cases x <;>
    simp [apply, masks, kNoneEvent, kReadEvent, kWriteEvent, pollIn, pollPri, pollOut]

/-- No bit of a mask is lost in a `short`. -/
theorem signExtend_setWidth {e : BitVec 32} (he : e ∈ masks) :
    (e.setWidth 16).signExtend 32 = e := by
  rcases mem_masks.mp he with rfl | rfl | rfl | rfl <;>
    simp [kNoneEvent, kReadEvent, kWriteEvent, pollIn, pollPri, pollOut]

/-- The public operations. -/
inductive Op
  | change (x : Change)
  | remove
deriving DecidableEq

end Channel

/-- `class Channel`: the fields that concern its registration. -/
structure Channel where
  events : BitVec 32
  index : ℤ
  addedToLoop : Bool
  masked : events ∈ Channel.masks

namespace Channel

/-- A channel as constructed. -/
def fresh : Channel := ⟨kNoneEvent, -1, false, mem_masks.mpr (.inl rfl)⟩

/-- `Channel::isNoneEvent`. -/
def isNoneEvent (c : Channel) : Bool := c.events == kNoneEvent

theorem isNoneEvent_iff {c : Channel} : c.isNoneEvent = true ↔ c.events = kNoneEvent := by
  simp [isNoneEvent]

/-- The assignment to `events_` in an operation. -/
def change (c : Channel) (x : Change) : Channel :=
  { c with events := x.apply c.events, masked := x.apply_mem_masks _ c.masked }

end Channel

/-- The channels of a loop, and the state of its poller. -/
structure PollerState (Ch P : Type) where
  channel : Ch → Channel
  poller : P

/-- `class Poller`: the map `channels_` and the virtual functions. -/
structure Poller (Ch P : Type) where
  empty : P
  channels : P → ℕ → Option Ch
  updateChannel : PollerState Ch P → Ch → Except Fault (PollerState Ch P)
  removeChannel : PollerState Ch P → Ch → Except Fault (PollerState Ch P)

namespace PollerState

variable {Ch P : Type} [DecidableEq Ch]

/-- Write to a channel. -/
def set (s : PollerState Ch P) (c : Ch) (x : Channel) : PollerState Ch P :=
  { s with channel := Function.update s.channel c x }

/-- `Channel::set_index`. -/
def setIndex (s : PollerState Ch P) (c : Ch) (idx : ℤ) : PollerState Ch P :=
  s.set c { s.channel c with index := idx }

@[simp] theorem set_channel (s : PollerState Ch P) (c : Ch) (x : Channel) :
    (s.set c x).channel = Function.update s.channel c x := rfl

@[simp] theorem set_poller (s : PollerState Ch P) (c : Ch) (x : Channel) :
    (s.set c x).poller = s.poller := rfl

@[simp] theorem set_set (s : PollerState Ch P) (c : Ch) (x y : Channel) :
    (s.set c x).set c y = s.set c y := by
  simp [set]

@[simp] theorem setIndex_channel (s : PollerState Ch P) (c : Ch) (idx : ℤ) :
    (s.setIndex c idx).channel = Function.update s.channel c { s.channel c with index := idx } :=
  rfl

@[simp] theorem setIndex_poller (s : PollerState Ch P) (c : Ch) (idx : ℤ) :
    (s.setIndex c idx).poller = s.poller := rfl

end PollerState

namespace Poller

variable {Ch P : Type} [DecidableEq Ch] (M : Poller Ch P)

/-- `Poller::hasChannel`. -/
def hasChannel (fd : Ch → ℕ) (s : PollerState Ch P) (c : Ch) : Bool :=
  M.channels s.poller (fd c) = some c

/-- `Channel::update`. -/
def update (s : PollerState Ch P) (c : Ch) : Except Fault (PollerState Ch P) :=
  M.updateChannel (s.set c { s.channel c with addedToLoop := true }) c

/-- `Channel::remove`. -/
def remove (s : PollerState Ch P) (c : Ch) : Except Fault (PollerState Ch P) := do
  check (s.channel c).isNoneEvent
  M.removeChannel (s.set c { s.channel c with addedToLoop := false }) c

/-- The call of an operation of a channel. -/
def call (s : PollerState Ch P) : Ch × Channel.Op → Except Fault (PollerState Ch P)
  | (c, .change x) => M.update (s.set c ((s.channel c).change x)) c
  | (c, .remove) => M.remove s c

theorem call_change (s : PollerState Ch P) (c : Ch) (x : Channel.Change) :
    M.call s (c, .change x) =
      M.updateChannel (s.set c { (s.channel c).change x with addedToLoop := true }) c := by
  simp [call, update]

theorem call_remove {s : PollerState Ch P} {c : Ch} (h : (s.channel c).isNoneEvent = true) :
    M.call s (c, .remove) =
      M.removeChannel (s.set c { s.channel c with addedToLoop := false }) c := by
  simp [call, remove, h, bind, Except.bind]

variable {M} in
theorem isNoneEvent_of_call_remove {s s' : PollerState Ch P} {c : Ch}
    (h : M.call s (c, .remove) = .ok s') : (s.channel c).isNoneEvent = true := by
  by_contra hnone
  have hassert : (s.channel c).isNoneEvent = false := Bool.not_eq_true _ |>.mp hnone
  simp [call, remove, hassert, bind, Except.bind] at h

/-- A loop without channels. -/
def fresh : PollerState Ch P := ⟨fun _ => .fresh, M.empty⟩

/-- A loop whose channels are operated on, one call after the other. -/
def system : System (PollerState Ch P) (Ch × Channel.Op) Fault where
  init s := s = M.fresh
  step s x r := M.call s x = r

variable {M} in
/-- Runs that `call` can compute. -/
theorem exists_run {w : List (Ch × Channel.Op)} {Q : PollerState Ch P → Bool}
    (h : (w.foldlM (fun s x => (M.call s x).toOption) M.fresh).any Q) :
    ∃ s, M.system.Run M.fresh w s ∧ Q s := by
  obtain ⟨s, hs, hQ⟩ := Option.any_eq_true .. |>.mp h
  exact ⟨s, .of_foldlM eq_ok_of_toOption hs, hQ⟩

variable {M} in
/-- What `call` computes is what every run reaches. -/
theorem of_run {w : List (Ch × Channel.Op)} {Q : PollerState Ch P → Bool}
    (h : (w.foldlM (fun s x => (M.call s x).toOption) M.fresh).all Q) {s : PollerState Ch P}
    (hrun : M.system.Run M.fresh w s) : Q s := by
  have hnext : ∀ {s x t}, M.system.step s x (.ok t) → (M.call s x).toOption = some t := by
    intro s x t hstep
    rw [show M.call s x = .ok t from hstep]
    rfl
  rw [hrun.foldlM_eq hnext] at h
  exact h

variable {M} in
/-- Lists of operations of which `call` refuses one. -/
theorem not_run {w : List (Ch × Channel.Op)}
    (h : (w.foldlM (fun s x => (M.call s x).toOption) M.fresh).isNone) :
    ¬ ∃ s, M.system.Run M.fresh w s := by
  intro ⟨s, hrun⟩
  have hfalse := of_run (Q := fun _ => false) (by rw [Option.isNone_iff_eq_none.mp h]; rfl) hrun
  cases hfalse

end Poller

/-! ## What the calls ask for -/

/-- The interest in each channel, and whether it is registered. -/
@[ext] structure Interest (Ch : Type) where
  events : Ch → BitVec 32
  registered : Ch → Bool

namespace Interest

variable {Ch : Type} [DecidableEq Ch]

/-- Nothing is registered. -/
def none : Interest Ch := ⟨fun _ => Channel.kNoneEvent, fun _ => false⟩

def call (i : Interest Ch) : Ch × Channel.Op → Interest Ch
  | (c, .change x) => ⟨Function.update i.events c (x.apply (i.events c)),
      Function.update i.registered c true⟩
  | (c, .remove) => { i with registered := Function.update i.registered c false }

/-- The interest after a list of calls. -/
def after (w : List (Ch × Channel.Op)) : Interest Ch := w.foldl call none

@[simp] theorem after_append_singleton (w : List (Ch × Channel.Op)) (x : Ch × Channel.Op) :
    after (w ++ [x]) = (after w).call x := by
  rw [after, List.foldl_append]
  rfl

end Interest

namespace Poller

variable {Ch P : Type} [DecidableEq Ch] {M : Poller Ch P} {fd : Ch → ℕ}

omit [DecidableEq Ch] in
/-- A file descriptor is that of one registered channel. -/
theorem eq_of_fd {channels : ℕ → Option Ch} {c d : Ch} (hc : channels (fd c) = some c)
    (hd : channels (fd d) = some d) (h : fd c = fd d) : c = d := by
  rw [h, hd] at hc
  exact (Option.some.inj hc).symm

/-- What `channels_` has for the file descriptor of `c`: nothing, or `c`. -/
@[reducible] def Own (c : Ch) (o : Option Ch) : Prop := o = none ∨ o = some c

omit [DecidableEq Ch] in
theorem Own.ne {c d : Ch} {o : Option Ch} (h : Own c o) (hd : d ≠ c) : o ≠ some d := by
  rintro rfl
  rcases h with h | h
  · cases h
  · exact hd (Option.some.inj h)

omit [DecidableEq Ch] in
/-- Another registered channel has another file descriptor. -/
theorem Own.fd_ne {channels : ℕ → Option Ch} {c d : Ch} (h : Own c (channels (fd c)))
    (hd : channels (fd d) = some d) (hdc : d ≠ c) : fd d ≠ fd c :=
  fun heq => h.ne hdc (heq ▸ hd)

/-- The interest that the channels and `channels_` say. -/
def interest (M : Poller Ch P) (fd : Ch → ℕ) (s : PollerState Ch P) : Interest Ch :=
  ⟨fun c => (s.channel c).events, M.hasChannel fd s⟩

/-- The interest after a change at one channel. -/
theorem interest_update {s s' : PollerState Ch P} {c : Ch} {e : BitVec 32} {o : Option Ch}
    (hevents : ∀ d, (s'.channel d).events =
      Function.update (fun d => (s.channel d).events) c e d)
    (hold : Own c (M.channels s.poller (fd c))) (ho : Own c o)
    (hchannels : M.channels s'.poller = Function.update (M.channels s.poller) (fd c) o) :
    M.interest fd s' = ⟨Function.update (M.interest fd s).events c e,
      Function.update (M.interest fd s).registered c (o = some c)⟩ := by
  apply Interest.ext
  · funext d
    exact hevents d
  · funext d
    show decide (M.channels s'.poller (fd d) = some d) =
      Function.update (M.interest fd s).registered c (decide (o = some c)) d
    rw [hchannels]
    by_cases hd : d = c
    · rw [hd, Function.update_self, Function.update_self]
    · rw [Function.update_of_ne hd]
      by_cases hfd : fd d = fd c
      · -- the number belongs to `c`, before and after
        show _ = decide (M.channels s.poller (fd d) = some d)
        rw [hfd, Function.update_self, decide_eq_false (ho.ne hd), decide_eq_false (hold.ne hd)]
      · rw [Function.update_of_ne hfd]
        rfl

/-- Every call that does not fail does to the interest what it says; `I` is the
invariant of the poller. -/
structure Refines (M : Poller Ch P) (fd : Ch → ℕ) (I : PollerState Ch P → Prop) : Prop where
  fresh : I M.fresh ∧ M.interest fd M.fresh = .none
  call : ∀ {s s' x}, I s → M.call s x = .ok s' →
    I s' ∧ M.interest fd s' = (M.interest fd s).call x

/-- **Refinement over runs.** -/
theorem Refines.run {I : PollerState Ch P → Prop} (h : M.Refines fd I)
    {w : List (Ch × Channel.Op)} {s : PollerState Ch P} (hw : M.system.Run M.fresh w s) :
    I s ∧ M.interest fd s = .after w := by
  induction hw with
  | nil => exact h.fresh
  | snoc _ hstep ih =>
    obtain ⟨hI, heq⟩ := h.call ih.1 hstep
    exact ⟨hI, by rw [heq, ih.2, Interest.after_append_singleton]⟩

end Poller

end Dxian
