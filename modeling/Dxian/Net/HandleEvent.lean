import Dxian.Lib.Mask
import Dxian.Net.Channel

/-!
# The events of a channel

`handleEvent` calls the callbacks that `revents_` asks for. The kernel reports the events
that a channel is interested in, and `POLLERR`, `POLLHUP` and `POLLNVAL` unasked.

## Main results

- `callbacks_handleEvent` — the callbacks, in their order
- `Reported.exists_asked` — a reported event calls a callback
- `Reported.isWriting`, `Reported.isReading` — a callback for data goes to who has asked for it
-/

namespace Dxian

open Mask

/-- `POLLERR`. -/
def pollErr : BitVec 32 := 0x008

/-- `POLLHUP`. -/
def pollHup : BitVec 32 := 0x010

/-- `POLLNVAL`. -/
def pollNval : BitVec 32 := 0x020

/-- `POLLRDHUP`. -/
def pollRdHup : BitVec 32 := 0x2000

namespace Channel

/-- `Channel::isWriting`. -/
def isWriting (events : BitVec 32) : Bool := meets events kWriteEvent

/-- `Channel::isReading`. -/
def isReading (events : BitVec 32) : Bool := meets events kReadEvent

inductive Callback
  | close
  | error
  | read
  | write
deriving DecidableEq

/-- What `handleEvent` does: the callbacks, and the warnings about `POLLHUP` and `POLLNVAL`. -/
inductive Handled
  | warnHup
  | warnNval
  | callback (x : Callback)
deriving DecidableEq

/-- `if (callback) callback()`. -/
def callIfSet (isSet : Callback → Bool) (x : Callback) : List Handled :=
  if isSet x then [.callback x] else []

/-- `Channel::handleEventWithGuard`; `isSet` says which callbacks the channel has. -/
def handleEventWithGuard (logHup_ : Bool) (isSet : Callback → Bool) (revents_ : BitVec 32) :
    List Handled :=
  (if meets revents_ pollHup && !meets revents_ pollIn then
    (if logHup_ then [.warnHup] else []) ++ callIfSet isSet .close else []) ++
  (if meets revents_ pollNval then [.warnNval] else []) ++
  (if meets revents_ (pollErr ||| pollNval) then callIfSet isSet .error else []) ++
  (if meets revents_ (pollIn ||| pollPri ||| pollRdHup) then callIfSet isSet .read else []) ++
  if meets revents_ pollOut then callIfSet isSet .write else []

/-- `Channel::handleEvent`; `tie_` says whether the owner is alive, if there is a tie. -/
def handleEvent (tie_ : Option Bool) (logHup_ : Bool) (isSet : Callback → Bool)
    (revents_ : BitVec 32) : List Handled :=
  match tie_ with
  | some alive => if alive then handleEventWithGuard logHup_ isSet revents_ else []
  | none => handleEventWithGuard logHup_ isSet revents_

def Handled.callback? : Handled → Option Callback
  | callback x => some x
  | _ => none

/-! ## Who is called -/

/-- The events that a callback is for. -/
def Callback.asked : Callback → BitVec 32 → Bool
  | close => fun revents => meets revents pollHup && !meets revents pollIn
  | error => fun revents => meets revents (pollErr ||| pollNval)
  | read => fun revents => meets revents (pollIn ||| pollPri ||| pollRdHup)
  | write => fun revents => meets revents pollOut

variable {logHup_ : Bool} {isSet : Callback → Bool} {events revents : BitVec 32}

theorem filterMap_callIfSet (b : Bool) (x : Callback) :
    (if b then callIfSet isSet x else []).filterMap Handled.callback? =
      if b && isSet x then [x] else [] := by
  cases b <;> cases h : isSet x <;> simp [callIfSet, h, Handled.callback?]

theorem filterMap_warn (b : Bool) {h : Handled} (hnone : h.callback? = none) :
    (if b then [h] else []).filterMap Handled.callback? = [] := by
  cases b <;> simp [hnone]

/-- The callbacks that are called, in this order. -/
theorem callbacks_eq : (handleEventWithGuard logHup_ isSet revents).filterMap Handled.callback? =
    [Callback.close, .error, .read, .write].filter fun x => x.asked revents && isSet x := by
  have hclose : ∀ b : Bool,
      (if b then (if logHup_ then [.warnHup] else []) ++ callIfSet isSet .close else []).filterMap
        Handled.callback? = if b && isSet .close then [.close] else [] := by
    intro b
    cases b with
    | false => rfl
    | true =>
      rw [if_pos rfl, List.filterMap_append, filterMap_warn _ rfl, List.nil_append]
      exact filterMap_callIfSet true .close
  have hfilter : ∀ (p : Callback → Bool) (x : Callback) (l : List Callback),
      (x :: l).filter p = (if p x then [x] else []) ++ l.filter p := by
    intro p x l
    cases h : p x <;> simp [h]
  rw [handleEventWithGuard, List.filterMap_append, List.filterMap_append, List.filterMap_append,
    List.filterMap_append, hclose, filterMap_warn _ rfl, filterMap_callIfSet, filterMap_callIfSet,
    filterMap_callIfSet, hfilter, hfilter, hfilter, hfilter]
  simp only [List.append_assoc, List.append_nil, List.filter_nil]
  rfl

/-- A tie to an owner that is gone calls none, any other state of `tie_` those. -/
theorem callbacks_handleEvent {tie_ : Option Bool} :
    (handleEvent tie_ logHup_ isSet revents).filterMap Handled.callback? =
      if tie_ = some false then []
      else [Callback.close, .error, .read, .write].filter fun x => x.asked revents && isSet x := by
  match tie_ with
  | none => exact callbacks_eq
  | some true => exact callbacks_eq
  | some false => rfl

/-! ## What the kernel reports -/

/-- What the kernel reports of a channel with these events: some of them, and `POLLERR`,
`POLLHUP` and `POLLNVAL` unasked. -/
def Reported (events revents : BitVec 32) : Prop :=
  revents ≠ 0 ∧ Within revents (events ||| pollErr ||| pollHup ||| pollNval)

/-- No reported event is ignored. -/
theorem Reported.exists_asked (h : Reported events revents) (he : events ∈ masks) :
    ∃ x : Callback, x.asked revents = true := by
  by_contra hnone
  push Not at hnone
  have hasked : ∀ x : Callback, x.asked revents = false :=
    fun x => Bool.not_eq_true _ |>.mp (hnone x)
  have hall : Within (events ||| pollErr ||| pollHup ||| pollNval)
      (pollHup ||| (pollErr ||| pollNval) ||| (pollIn ||| pollPri ||| pollRdHup) ||| pollOut) := by
    rcases mem_masks.mp he with rfl | rfl | rfl | rfl <;> decide
  refine h.1 ((h.2.trans hall).eq_zero ?_)
  have hread := hasked .read
  have hclose := hasked .close
  simp only [Callback.asked, meets_or, Bool.or_eq_false_iff] at hread hclose
  rw [hread.1.1, Bool.not_false, Bool.and_true] at hclose
  rw [meets_or, meets_or, meets_or, hclose, show meets revents (pollErr ||| pollNval) = false from
    hasked .error, show meets revents pollOut = false from hasked .write, meets_or, meets_or,
    hread.1.1, hread.1.2, hread.2]
  rfl

/-- Who is told to write has asked for it. -/
theorem Reported.isWriting (h : Reported events revents) (he : events ∈ masks)
    (hwrite : Callback.write.asked revents = true) : isWriting events = true := by
  have hmeets := h.2.meets hwrite
  rcases mem_masks.mp he with rfl | rfl | rfl | rfl <;> revert hmeets <;> decide

/-- Who is told to read has asked for it. -/
theorem Reported.isReading (h : Reported events revents) (he : events ∈ masks)
    (hread : Callback.read.asked revents = true) : isReading events = true := by
  have hmeets := h.2.meets hread
  rcases mem_masks.mp he with rfl | rfl | rfl | rfl <;> revert hmeets <;> decide

end Channel

end Dxian
