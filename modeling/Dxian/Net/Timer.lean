import Dxian.Base.Fault
import Dxian.Base.Timestamp
import Mathlib.Logic.Function.Basic
import Mathlib.Data.List.Basic

/-!
# Timers and the heap they live in

`TimerQueue` owns its timers through raw pointers, and the allocator may hand
out the address of a deleted Timer again. The heap is therefore explicit: a
pointer is dereferenced, written and deleted through `Memory`, and each access
to an address that holds no Timer is a `Fault`.
-/

namespace Dxian

/-- A raw pointer value. -/
abbrev Ptr := ℕ

def nullptr : Ptr := 0

/-- `UINTPTR_MAX`. -/
def uintptrMax : Ptr := 2 ^ 64 - 1

/-- `class Timer`, without its callback: what a callback does is the choice of
whoever runs the queue. `repeat_` and `interval_` are constants of the object. -/
structure Timer where
  expiration : Timestamp
  interval : Seconds
  sequence : ℤ

namespace Timer

/-- `repeat_`, set to `interval > 0.0` by the constructor. -/
def repeats (t : Timer) : Bool := t.interval.positive

/-- `Timer::restart`. -/
def restart (t : Timer) (now : Timestamp) : Timer :=
  if t.repeats then { t with expiration := addTime now t.interval }
  else { t with expiration := Timestamp.invalid }

@[simp] theorem restart_sequence (t : Timer) (now : Timestamp) :
    (t.restart now).sequence = t.sequence := by
  unfold restart; split <;> rfl

@[simp] theorem restart_interval (t : Timer) (now : Timestamp) :
    (t.restart now).interval = t.interval := by
  unfold restart; split <;> rfl

theorem restart_expiration {t : Timer} (h : t.repeats = true) (now : Timestamp) :
    (t.restart now).expiration = addTime now t.interval := by
  unfold restart; rw [if_pos h]

end Timer

/-- `TimerId`: the address of a Timer and its sequence number. -/
structure TimerId where
  timer : Ptr
  sequence : ℤ
deriving DecidableEq

/-- `TimerId()`. -/
def TimerId.default : TimerId := ⟨nullptr, 0⟩

/-- The live Timers by address, the counter `s_numCreated_`, and a record of the
sequence numbers of the Timers deleted so far. The fields say what `new` and
the counter guarantee: no Timer is at the null pointer, and none can start at
`UINTPTR_MAX`, being larger than a byte; a sequence number is given once. -/
structure Memory where
  timerAt : Ptr → Option Timer
  numCreated : ℤ
  deleted : List ℤ
  placed : ∀ {p t}, timerAt p = some t → p ≠ nullptr ∧ p < uintptrMax
  numbered : ∀ {p t}, timerAt p = some t → t.sequence ≤ numCreated
  distinct : ∀ {p q t u}, timerAt p = some t → timerAt q = some u →
    t.sequence = u.sequence → p = q
  deleted_numbered : ∀ n ∈ deleted, n ≤ numCreated
  deleted_dead : ∀ {p t}, timerAt p = some t → t.sequence ∉ deleted
  deleted_nodup : deleted.Nodup

namespace Memory

/-- The heap before the first Timer is created. -/
def empty : Memory where
  timerAt _ := none
  numCreated := 0
  deleted := []
  placed h := by simp at h
  numbered h := by simp at h
  distinct h := by simp at h
  deleted_numbered := by simp
  deleted_dead h := by simp at h
  deleted_nodup := .nil

/-- Dereference `p`. -/
def deref (m : Memory) (p : Ptr) : Except Fault Timer :=
  match m.timerAt p with
  | some t => .ok t
  | none => .error .useAfterFree

@[simp] theorem deref_of_live {m : Memory} {p : Ptr} {t : Timer} (h : m.timerAt p = some t) :
    m.deref p = .ok t := by
  simp [deref, h]

/-- The addresses `new Timer` may return. -/
def Free (m : Memory) (p : Ptr) : Prop :=
  p ≠ nullptr ∧ p < uintptrMax ∧ m.timerAt p = none

instance (m : Memory) (p : Ptr) : Decidable (m.Free p) := inferInstanceAs (Decidable (_ ∧ _))

/-- A fact about the Timers of an updated heap, from the updated cell and the others. -/
theorem forall_update {f : Ptr → Option Timer} {p : Ptr} {o : Option Timer}
    {P : Ptr → Timer → Prop} (hself : ∀ t, o = some t → P p t)
    (hother : ∀ q t, q ≠ p → f q = some t → P q t) {q : Ptr} {t : Timer}
    (h : Function.update f p o q = some t) : P q t := by
  by_cases hq : q = p
  · subst hq
    exact hself t (by simpa using h)
  · exact hother q t hq (by rwa [Function.update_of_ne hq] at h)

/-- `new Timer(cb, when, interval)` at the free address `p`; the sequence number
is `s_numCreated_.incrementAndGet()`. -/
def new (m : Memory) (p : Ptr) (when : Timestamp) (interval : Seconds) (h : m.Free p) :
    Memory where
  timerAt := Function.update m.timerAt p (some ⟨when, interval, m.numCreated + 1⟩)
  numCreated := m.numCreated + 1
  deleted := m.deleted
  placed := forall_update (fun _ _ => ⟨h.1, h.2.1⟩) fun _ _ _ => m.placed
  numbered := forall_update (by rintro _ ⟨⟩; exact le_rfl)
    fun _ _ _ ht => (m.numbered ht).trans (by omega)
  distinct := by
    -- the new number exceeds every number given before
    have hnew : ∀ {q u}, m.timerAt q = some u → u.sequence ≠ m.numCreated + 1 :=
      fun hu heq => by have := m.numbered hu; omega
    intro q r t u ht hu heq
    refine forall_update (P := fun q t => t.sequence = u.sequence → q = r) ?_ ?_ ht heq
    · rintro _ ⟨⟩
      refine forall_update (P := fun r u => m.numCreated + 1 = u.sequence → p = r) ?_ ?_ hu
      · intros; rfl
      · exact fun _ _ _ hr heq => absurd heq.symm (hnew hr)
    · intro q t _ hq
      refine forall_update (P := fun r u => t.sequence = u.sequence → q = r) ?_ ?_ hu
      · rintro _ ⟨⟩ heq; exact absurd heq (hnew hq)
      · exact fun _ _ _ hr => m.distinct hq hr
  deleted_numbered n hn := (m.deleted_numbered n hn).trans (by omega)
  deleted_dead := forall_update
    (by rintro _ ⟨⟩ hdel; have := m.deleted_numbered _ hdel; simp only at this; omega)
    fun _ _ _ => m.deleted_dead
  deleted_nodup := m.deleted_nodup

/-- `p->restart(now)` on the live Timer `t` at `p`. -/
def restarted (m : Memory) (p : Ptr) (t : Timer) (h : m.timerAt p = some t) (now : Timestamp) :
    Memory where
  timerAt := Function.update m.timerAt p (some (t.restart now))
  numCreated := m.numCreated
  deleted := m.deleted
  placed := forall_update (fun _ _ => m.placed h) fun _ _ _ => m.placed
  numbered := forall_update (by rintro _ ⟨⟩; simpa using m.numbered h) fun _ _ _ => m.numbered
  distinct := by
    intro q r u v hu hv heq
    refine forall_update (P := fun q u => u.sequence = v.sequence → q = r) ?_ ?_ hu heq
    · rintro _ ⟨⟩
      refine forall_update (P := fun r v => (t.restart now).sequence = v.sequence → p = r) ?_ ?_ hv
      · intros; rfl
      · exact fun _ _ _ hr heq => m.distinct h hr (by simpa using heq)
    · intro q u _ hq
      refine forall_update (P := fun r v => u.sequence = v.sequence → q = r) ?_ ?_ hv
      · rintro _ ⟨⟩ heq; exact m.distinct hq h (by simpa using heq)
      · exact fun _ _ _ hr => m.distinct hq hr
  deleted_numbered := m.deleted_numbered
  deleted_dead := forall_update (by rintro _ ⟨⟩; simpa using m.deleted_dead h)
    fun _ _ _ => m.deleted_dead
  deleted_nodup := m.deleted_nodup

/-- `p->restart(now)`. -/
def restart (m : Memory) (p : Ptr) (now : Timestamp) : Except Fault Memory :=
  match h : m.timerAt p with
  | some t => .ok (m.restarted p t h now)
  | none => .error .useAfterFree

/-- The heap without the live Timer `t` at `p`. -/
def released (m : Memory) (p : Ptr) (t : Timer) (h : m.timerAt p = some t) : Memory where
  timerAt := Function.update m.timerAt p none
  numCreated := m.numCreated
  deleted := t.sequence :: m.deleted
  placed := forall_update (by rintro _ ⟨⟩) fun _ _ _ => m.placed
  numbered := forall_update (by rintro _ ⟨⟩) fun _ _ _ => m.numbered
  distinct := by
    intro q r u v hu hv
    refine forall_update (P := fun q u => u.sequence = v.sequence → q = r) (by rintro _ ⟨⟩) ?_ hu
    intro q u _ hq
    exact forall_update (P := fun r v => u.sequence = v.sequence → q = r) (by rintro _ ⟨⟩)
      (fun _ _ _ hr => m.distinct hq hr) hv
  deleted_numbered := by
    intro n hn
    rcases List.mem_cons.mp hn with rfl | hn
    · exact m.numbered h
    · exact m.deleted_numbered n hn
  deleted_dead := by
    intro q u hu
    refine forall_update (P := fun _ u => u.sequence ∉ t.sequence :: m.deleted)
      (by rintro _ ⟨⟩) (fun q u hq hu => ?_) hu
    rw [List.mem_cons, not_or]
    exact ⟨fun heq => hq (m.distinct hu h heq), m.deleted_dead hu⟩
  deleted_nodup := List.nodup_cons.mpr ⟨m.deleted_dead h, m.deleted_nodup⟩

/-- `delete p`. -/
def delete (m : Memory) (p : Ptr) : Except Fault Memory :=
  match h : m.timerAt p with
  | some t => .ok (m.released p t h)
  | none => .error .doubleFree

section Access

variable {m : Memory} {p q : Ptr} {t : Timer} (h : m.timerAt p = some t)
include h

theorem restart_of_live (now : Timestamp) : m.restart p now = .ok (m.restarted p t h now) := by
  unfold restart
  split
  · next u hu => cases h.symm.trans hu; rfl
  · next hu => cases h.symm.trans hu

theorem delete_of_live : m.delete p = .ok (m.released p t h) := by
  unfold delete
  split
  · next u hu => cases h.symm.trans hu; rfl
  · next hu => cases h.symm.trans hu

@[simp] theorem restarted_timerAt_self (now : Timestamp) :
    (m.restarted p t h now).timerAt p = some (t.restart now) := Function.update_self ..

theorem restarted_timerAt_of_ne (now : Timestamp) (hq : q ≠ p) :
    (m.restarted p t h now).timerAt q = m.timerAt q := Function.update_of_ne hq ..

@[simp] theorem released_timerAt_self : (m.released p t h).timerAt p = none :=
  Function.update_self ..

theorem released_timerAt_of_ne (hq : q ≠ p) :
    (m.released p t h).timerAt q = m.timerAt q := Function.update_of_ne hq ..

end Access

section New

variable {m : Memory} {p q : Ptr} {when : Timestamp} {interval : Seconds} (h : m.Free p)
include h

@[simp] theorem new_timerAt_self :
    (m.new p when interval h).timerAt p = some ⟨when, interval, m.numCreated + 1⟩ :=
  Function.update_self ..

theorem new_timerAt_of_ne (hq : q ≠ p) :
    (m.new p when interval h).timerAt q = m.timerAt q := Function.update_of_ne hq ..

/-- Allocation leaves the live Timers alone. -/
theorem new_timerAt_of_live {t : Timer} (hq : m.timerAt q = some t) :
    (m.new p when interval h).timerAt q = some t := by
  have hne : q ≠ p := by
    rintro rfl
    cases h.2.2.symm.trans hq
  rw [new_timerAt_of_ne h hne, hq]

end New

end Memory

end Dxian
