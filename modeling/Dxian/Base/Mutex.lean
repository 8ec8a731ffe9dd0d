import Dxian.Base.Fault
import Dxian.Lib.Monitor
import Mathlib.Data.Int.Notation

/-!
# The mutex and the condition

`MutexLock` keeps the id of the thread that has locked it in `holder_`, beside the
pthread mutex. `Condition::wait` clears it for the time of the wait. The field is
written after the lock and before the unlock, in steps of their own.

`Guarded` is a value behind a `MutexLock` with a `Condition`. A thread calls a function
that waits in a loop while the value is busy, or one that updates it; both lock with a
`MutexLockGuard`. One step is one access, so that a thread can be anywhere in these
functions while the others go on.

## Main results

- `Invariant.step` — the mutex and `holder_` agree with the places of the threads
- `holder_tells_the_truth` — mutual exclusion, `isLockedByThisThread`, no deadlock
-/

namespace Dxian

open Transition

/-- What `CurrentThread::tid` says in each thread. -/
structure ThreadIds (T : Type*) where
  tid : T → ℤ
  injective : Function.Injective tid
  ne_zero : ∀ t, tid t ≠ 0

/-- `class MutexLock`; `owner` is the thread that holds the pthread mutex. -/
structure MutexLock (T : Type*) where
  owner : Option T
  holder_ : ℤ

namespace MutexLock

variable {T : Type*}

/-- A `MutexLock` as constructed. -/
def unlocked : MutexLock T := ⟨none, 0⟩

/-- `MutexLock::assignHolder`. -/
def assignHolder (m : MutexLock T) (tid : ℤ) : MutexLock T := { m with holder_ := tid }

/-- `MutexLock::unassignHolder`. -/
def unassignHolder (m : MutexLock T) : MutexLock T := { m with holder_ := 0 }

/-- `MutexLock::isLockedByThisThread`. -/
def isLockedByThisThread (m : MutexLock T) (tid : ℤ) : Bool := m.holder_ == tid

/-- `pthread_mutex_unlock`; the return code is looked at by `MCHECK`. -/
def unlock [DecidableEq T] (m : MutexLock T) (t : T) : Except Fault (MutexLock T) :=
  if m.owner = some t then .ok { m with owner := none } else .error .assertion

theorem of_unlock [DecidableEq T] {m m' : MutexLock T} {t : T} (h : m.unlock t = .ok m') :
    m.owner = some t ∧ m' = { m with owner := none } := by
  unfold unlock at h
  split at h
  · next howner => cases h; exact ⟨howner, rfl⟩
  · cases h

end MutexLock

namespace Guarded

/-- A function that locks: the one that waits, or one that updates the value. -/
inductive Body (α : Type*)
  | wait
  | update (a : α)

/-- Where a thread is. `locking` and `assigning` are in the constructor of the guard,
`unassigning` and `unlocking` in its destructor. `releasing` and `reassigning` are the
constructor and the destructor of the `UnassignGuard` in `Condition::wait`; `waiting`,
`sleeping` and `relocking` are in `pthread_cond_wait`. `notifying` follows an update. -/
inductive Pc (V α : Type*)
  | outside
  | locking (next : Body α)
  | assigning (next : Body α)
  | testing
  | releasing
  | waiting
  | sleeping (notified : Bool)
  | relocking
  | reassigning
  | updating (a : α)
  | notifying (a : α) (old : V) (broadcast : Bool)
  | unassigning
  | unlocking

namespace Pc

variable {V α : Type*}

/-- Where the guard's constructor ends. -/
def start : Body α → Pc V α
  | .wait => testing
  | .update a => updating a

/-- Between the lock and the unlock of the pthread mutex. -/
def inside : Pc V α → Bool
  | assigning _ | testing | releasing | waiting | reassigning | updating _ | notifying ..
  | unassigning | unlocking => true
  | _ => false

/-- Between `assignHolder` and `unassignHolder`. -/
def assigned : Pc V α → Bool
  | testing | releasing | updating _ | notifying .. | unassigning => true
  | _ => false

/-- What `pthread_cond_broadcast` does to a thread. -/
def notify : Pc V α → Pc V α
  | sleeping _ => sleeping true
  | p => p

theorem inside_of_assigned {p : Pc V α} (h : p.assigned = true) : p.inside = true := by
  cases p <;> first | rfl | cases h

@[simp] theorem inside_start (x : Body α) : (start x : Pc V α).inside = true := by
  cases x <;> rfl

@[simp] theorem assigned_start (x : Body α) : (start x : Pc V α).assigned = true := by
  cases x <;> rfl

@[simp] theorem inside_notify (p : Pc V α) : p.notify.inside = p.inside := by
  cases p <;> rfl

@[simp] theorem assigned_notify (p : Pc V α) : p.notify.assigned = p.assigned := by
  cases p <;> rfl

end Pc

inductive Action (T α : Type*)
  | call (t : T) (x : Body α)
  | lock (t : T)
  | assignHolder (t : T)
  | test (t : T)
  | release (t : T)
  | sleep (t : T)
  | wake (t : T)
  | wakeSpuriously (t : T)
  | relock (t : T)
  | reassign (t : T)
  | update (t : T)
  | notify (t : T) (a : α)
  | unassignHolder (t : T)
  | unlock (t : T)

end Guarded

/-- A value that is guarded by a mutex, and where each thread is. -/
structure Guarded (T V α : Type*) where
  mutex : MutexLock T
  value : V
  pc : T → Guarded.Pc V α

namespace Guarded

variable {T V α : Type*} [DecidableEq T]

/-- The thread `t` goes to `p`. -/
def move (s : Guarded T V α) (t : T) (p : Pc V α) : Guarded T V α :=
  { s with pc := Function.update s.pc t p }

@[simp] theorem move_mutex (s : Guarded T V α) (t : T) (p : Pc V α) :
    (s.move t p).mutex = s.mutex := rfl

@[simp] theorem move_value (s : Guarded T V α) (t : T) (p : Pc V α) :
    (s.move t p).value = s.value := rfl

@[simp] theorem move_pc (s : Guarded T V α) (t : T) (p : Pc V α) :
    (s.move t p).pc = Function.update s.pc t p := rfl

/-- `notifyAll`. -/
def notifyAll (s : Guarded T V α) : Guarded T V α := { s with pc := fun t => (s.pc t).notify }

variable (ids : ThreadIds T) (M : Monitor V α Fault)

/-- One step of a thread. -/
inductive Step (s : Guarded T V α) : Action T α → Except Fault (Guarded T V α) → Prop
  | call {t x} (hpc : s.pc t = .outside) : Step s (.call t x) (.ok (s.move t (.locking x)))
  | lock {t x} (hpc : s.pc t = .locking x) (hfree : s.mutex.owner = none) :
      Step s (.lock t) (.ok ({ s with mutex := ⟨some t, s.mutex.holder_⟩ }.move t (.assigning x)))
  | assignHolder {t x} (hpc : s.pc t = .assigning x) : Step s (.assignHolder t)
      (.ok ({ s with mutex := s.mutex.assignHolder (ids.tid t) }.move t (.start x)))
  | test {t} (hpc : s.pc t = .testing) : Step s (.test t)
      (.ok (s.move t (if M.busy s.value then .releasing else .unassigning)))
  | release {t} (hpc : s.pc t = .releasing) : Step s (.release t)
      (.ok ({ s with mutex := s.mutex.unassignHolder }.move t .waiting))
  | sleep {t r} (hpc : s.pc t = .waiting) (hr : (s.mutex.unlock t).map
      (fun m => { s with mutex := m }.move t (.sleeping false)) = r) : Step s (.sleep t) r
  | wake {t} (hpc : s.pc t = .sleeping true) : Step s (.wake t) (.ok (s.move t .relocking))
  | wakeSpuriously {t} (hpc : s.pc t = .sleeping false) :
      Step s (.wakeSpuriously t) (.ok (s.move t .relocking))
  | relock {t} (hpc : s.pc t = .relocking) (hfree : s.mutex.owner = none) : Step s (.relock t)
      (.ok ({ s with mutex := ⟨some t, s.mutex.holder_⟩ }.move t .reassigning))
  | reassign {t} (hpc : s.pc t = .reassigning) : Step s (.reassign t)
      (.ok ({ s with mutex := s.mutex.assignHolder (ids.tid t) }.move t .testing))
  | update {t a r} (hpc : s.pc t = .updating a) (hr : (M.update a s.value).map
      (fun x => { s with value := x.1 }.move t (.notifying a s.value x.2)) = r) :
      Step s (.update t) r
  | notify {t a old broadcast} (hpc : s.pc t = .notifying a old broadcast) : Step s (.notify t a)
      (.ok ((if broadcast then s.notifyAll else s).move t .unassigning))
  | unassignHolder {t} (hpc : s.pc t = .unassigning) : Step s (.unassignHolder t)
      (.ok ({ s with mutex := s.mutex.unassignHolder }.move t .unlocking))
  | unlock {t r} (hpc : s.pc t = .unlocking) (hr : (s.mutex.unlock t).map
      (fun m => { s with mutex := m }.move t .outside) = r) : Step s (.unlock t) r

/-- The threads of `T`, none of which is inside at the beginning. -/
def machine : System (Guarded T V α) (Action T α) Fault where
  init s := M.init s.value ∧ s.mutex = .unlocked ∧ ∀ t, s.pc t = .outside
  step := Step ids M

/-! ## Whose the mutex is -/

variable {ids M} {s s' : Guarded T V α} {t u : T}

/-- What `holder_` should be. -/
def holderOf (ids : ThreadIds T) (pc : T → Pc V α) : Option T → ℤ
  | some t => if (pc t).assigned then ids.tid t else 0
  | none => 0

/-- The mutex is held by the thread that is inside, and `holder_` is its id between
`assignHolder` and `unassignHolder`. -/
structure Invariant (ids : ThreadIds T) (s : Guarded T V α) : Prop where
  owner : ∀ t, s.mutex.owner = some t ↔ (s.pc t).inside = true
  holder : s.mutex.holder_ = holderOf ids s.pc s.mutex.owner

omit [DecidableEq T] in
/-- **Mutual exclusion.** -/
theorem Invariant.unique (inv : Invariant ids s) (ht : (s.pc t).inside = true)
    (hu : (s.pc u).inside = true) : t = u :=
  Option.some.inj (((inv.owner t).mpr ht).symm.trans ((inv.owner u).mpr hu))

omit [DecidableEq T] in
theorem Invariant.holder_of_owner (inv : Invariant ids s) (h : (s.pc t).inside = true) :
    s.mutex.holder_ = if (s.pc t).assigned then ids.tid t else 0 := by
  rw [inv.holder, (inv.owner t).mpr h]
  rfl

omit [DecidableEq T] in
theorem Invariant.holder_of_free (inv : Invariant ids s) (h : s.mutex.owner = none) :
    s.mutex.holder_ = 0 := by
  rw [inv.holder, h]
  rfl

/-- The owner, or a thread that finds the mutex free, goes to `p`. -/
theorem Invariant.move (inv : Invariant ids s) {m : MutexLock T} {v : V} {p : Pc V α}
    (hmay : s.mutex.owner = none ∨ s.mutex.owner = some t)
    (howner : m.owner = if p.inside then some t else none)
    (hholder : m.holder_ = if p.assigned then ids.tid t else 0) :
    Invariant ids ⟨m, v, Function.update s.pc t p⟩ where
  owner u := by
    show m.owner = some u ↔ (Function.update s.pc t p u).inside = true
    by_cases hu : u = t
    · subst hu
      rw [Function.update_self, howner]
      cases p.inside <;> simp
    · -- the other threads are outside before and after
      have hout : (s.pc u).inside = false := by
        rw [← Bool.not_eq_true, ← inv.owner]
        rcases hmay with h | h <;> rw [h]
        · nofun
        · exact fun heq => hu (Option.some.inj heq).symm
      rw [Function.update_of_ne hu, hout, howner]
      cases p.inside <;> simp [Ne.symm hu]
  holder := by
    show m.holder_ = holderOf ids (Function.update s.pc t p) m.owner
    rw [hholder, howner]
    by_cases hin : p.inside = true
    · simp [hin, holderOf]
    · have hassigned : ¬ p.assigned = true := fun h => hin (Pc.inside_of_assigned h)
      simp [hin, hassigned, holderOf]

/-- A thread moves outside of the mutex. -/
theorem Invariant.move_outside (inv : Invariant ids s) {p : Pc V α}
    (hbefore : (s.pc t).inside = false) (hafter : p.inside = false) :
    Invariant ids (s.move t p) where
  owner u := by
    by_cases hu : u = t
    · subst hu
      rw [move_mutex, move_pc, Function.update_self, hafter, inv.owner, hbefore]
    · rw [move_mutex, move_pc, Function.update_of_ne hu, inv.owner]
  holder := by
    rw [move_mutex, move_pc, inv.holder]
    cases hown : s.mutex.owner with
    | none => rfl
    | some u =>
      have hu : u ≠ t := by
        rintro rfl
        rw [(inv.owner u).mp hown] at hbefore
        cases hbefore
      rw [holderOf, holderOf, Function.update_of_ne hu]

omit [DecidableEq T] in
theorem Invariant.notifyAll (inv : Invariant ids s) : Invariant ids s.notifyAll where
  owner u := by
    show s.mutex.owner = some u ↔ (s.pc u).notify.inside = true
    rw [Pc.inside_notify, inv.owner]
  holder := by
    show s.mutex.holder_ = holderOf ids (fun u => (s.pc u).notify) s.mutex.owner
    rw [inv.holder]
    cases s.mutex.owner <;> simp [holderOf]

omit [DecidableEq T] in
/-- With nobody inside, the mutex is as constructed. -/
theorem Invariant.unlocked (inv : Invariant ids s) (hout : ∀ t, (s.pc t).inside = false) :
    s.mutex = .unlocked := by
  have hfree : s.mutex.owner = none := by
    rw [Option.eq_none_iff_forall_ne_some]
    intro t ht
    cases (hout t).symm.trans ((inv.owner t).mp ht)
  rw [MutexLock.unlocked, ← hfree, ← inv.holder_of_free hfree]

theorem invariant_init (h : (machine ids M).init s) : Invariant ids s where
  owner u := by
    rw [h.2.1, h.2.2 u]
    exact iff_of_false nofun nofun
  holder := by
    rw [h.2.1]
    rfl

/-- **Step lemma.** -/
theorem Invariant.step (inv : Invariant ids s) {a : Action T α}
    (h : Step ids M s a (.ok s')) : Invariant ids s' := by
  have hown : ∀ {t}, (s.pc t).inside = true →
      s.mutex.owner = some t ∧ s.mutex.holder_ = if (s.pc t).assigned then ids.tid t else 0 :=
    fun hin => ⟨(inv.owner _).mpr hin, inv.holder_of_owner hin⟩
  cases h with
  | call hpc | wake hpc | wakeSpuriously hpc => exact inv.move_outside (by rw [hpc]; rfl) rfl
  | lock hpc hfree | relock hpc hfree =>
    exact inv.move (.inl hfree) rfl (inv.holder_of_free hfree)
  | assignHolder hpc =>
    obtain ⟨howner, -⟩ := hown (by rw [hpc]; rfl)
    exact inv.move (.inr howner) (by rw [Pc.inside_start]; exact howner)
      (by rw [Pc.assigned_start]; rfl)
  | reassign hpc =>
    obtain ⟨howner, -⟩ := hown (by rw [hpc]; rfl)
    exact inv.move (.inr howner) howner rfl
  | test hpc =>
    obtain ⟨howner, hholder⟩ := hown (by rw [hpc]; rfl)
    rw [hpc] at hholder
    refine inv.move (.inr howner) ?_ ?_ <;> split <;> assumption
  | release hpc | unassignHolder hpc =>
    obtain ⟨howner, -⟩ := hown (by rw [hpc]; rfl)
    exact inv.move (.inr howner) howner rfl
  | sleep hpc hr | unlock hpc hr =>
    obtain ⟨-, hholder⟩ := hown (by rw [hpc]; rfl)
    rw [hpc] at hholder
    obtain ⟨m, hm, rfl⟩ := exists_of_map_eq_ok hr
    obtain ⟨howner, rfl⟩ := MutexLock.of_unlock hm
    exact inv.move (.inr howner) rfl hholder
  | update hpc hr =>
    obtain ⟨howner, hholder⟩ := hown (by rw [hpc]; rfl)
    rw [hpc] at hholder
    obtain ⟨x, -, rfl⟩ := exists_of_map_eq_ok hr
    exact inv.move (.inr howner) howner hholder
  | @notify t a old broadcast hpc =>
    obtain ⟨howner, hholder⟩ := hown (by rw [hpc]; rfl)
    rw [hpc] at hholder
    cases broadcast with
    | false => exact inv.move (.inr howner) howner hholder
    | true => exact inv.notifyAll.move (.inr howner) howner hholder

theorem Invariant.of_reachable (h : (machine ids M).Reachable s) : Invariant ids s :=
  h.invariant invariant_init fun inv hstep => inv.step hstep

/-! ## Every function goes on -/

/-- The steps that go on with a call: all but a new call and a spurious wakeup. -/
def Action.GoesOn : Action T α → Prop
  | call .. | wakeSpuriously _ => False
  | _ => True

/-- The thread that is inside can go on. -/
theorem exists_step_of_inside (ids : ThreadIds T) (M : Monitor V α Fault) {t : T}
    (h : (s.pc t).inside = true) : ∃ a r, a.GoesOn ∧ Step ids M s a r := by
  cases hpc : s.pc t with
  | outside | locking | sleeping | relocking => rw [hpc] at h; cases h
  | assigning => exact ⟨.assignHolder t, _, trivial, .assignHolder hpc⟩
  | testing => exact ⟨.test t, _, trivial, .test hpc⟩
  | releasing => exact ⟨.release t, _, trivial, .release hpc⟩
  | waiting => exact ⟨.sleep t, _, trivial, .sleep hpc rfl⟩
  | reassigning => exact ⟨.reassign t, _, trivial, .reassign hpc⟩
  | updating => exact ⟨.update t, _, trivial, .update hpc rfl⟩
  | notifying a => exact ⟨.notify t a, _, trivial, .notify hpc⟩
  | unassigning => exact ⟨.unassignHolder t, _, trivial, .unassignHolder hpc⟩
  | unlocking => exact ⟨.unlock t, _, trivial, .unlock hpc rfl⟩

/-- **No deadlock**: as long as a thread is in a function and not asleep, some thread can
go on. -/
theorem Invariant.exists_step (inv : Invariant ids s) (M : Monitor V α Fault) {t : T}
    (hin : s.pc t ≠ .outside) (hawake : s.pc t ≠ .sleeping false) :
    ∃ a r, a.GoesOn ∧ Step ids M s a r := by
  cases howner : s.mutex.owner with
  | some u => exact exists_step_of_inside ids M ((inv.owner u).mp howner)
  | none =>
    by_cases hinside : (s.pc t).inside = true
    · exact exists_step_of_inside ids M hinside
    · cases hpc : s.pc t with
      | outside => exact absurd hpc hin
      | locking => exact ⟨.lock t, _, trivial, .lock hpc howner⟩
      | sleeping notified =>
        cases notified with
        | false => exact absurd hpc hawake
        | true => exact ⟨.wake t, _, trivial, .wake hpc⟩
      | relocking => exact ⟨.relock t, _, trivial, .relock hpc howner⟩
      | _ => rw [hpc] at hinside; exact absurd rfl hinside

omit [DecidableEq T] in
/-- What `isLockedByThisThread` answers. -/
theorem Invariant.isLockedByThisThread_eq (inv : Invariant ids s) (t : T) :
    s.mutex.isLockedByThisThread (ids.tid t) = (s.pc t).assigned := by
  rw [MutexLock.isLockedByThisThread, Bool.eq_iff_iff, beq_iff_eq]
  constructor
  · intro heq
    cases howner : s.mutex.owner with
    | none => exact absurd (heq.symm.trans (inv.holder_of_free howner)) (ids.ne_zero t)
    | some u =>
      rw [inv.holder_of_owner ((inv.owner u).mp howner)] at heq
      split at heq
      · next hassigned => rwa [← ids.injective heq]
      · exact absurd heq.symm (ids.ne_zero t)
  · intro hassigned
    rw [inv.holder_of_owner (Pc.inside_of_assigned hassigned), if_pos hassigned]

/-- A thread that unlocks is inside, so that only the update itself may fail. -/
theorem Invariant.of_error (inv : Invariant ids s) {a : Action T α} {e : Fault}
    (h : Step ids M s a (.error e)) :
    ∃ t b, a = .update t ∧ s.pc t = .updating b ∧ M.update b s.value = .error e := by
  have hunlock : ∀ {t}, (s.pc t).inside = true → s.mutex.unlock t ≠ .error e := by
    intro t hin
    rw [MutexLock.unlock, if_pos ((inv.owner t).mpr hin)]
    nofun
  cases h with
  | sleep hpc hr | unlock hpc hr =>
    exact absurd (error_of_map_eq hr) (hunlock (by rw [hpc]; rfl))
  | @update t b _ hpc hr => exact ⟨t, b, rfl, hpc, error_of_map_eq hr⟩

/-- **`holder_` tells the truth.** Let any number of threads, each with an id of its own, wait
for a guarded value and update it, in any interleaving of their single accesses. Then at most
one of them is between the lock and the unlock; `isLockedByThisThread` answers yes exactly
between `assignHolder` and `unassignHolder` of the thread that asks; a mutex that nobody is
inside of is as constructed, so that its destructor may be called; no `MCHECK` fails; and the
threads do not deadlock. -/
theorem holder_tells_the_truth (ids : ThreadIds T) (M : Monitor V α Fault)
    (h : (machine ids M).Reachable s) :
    (∀ t u, (s.pc t).inside = true → (s.pc u).inside = true → t = u) ∧
    (∀ t, s.mutex.isLockedByThisThread (ids.tid t) = (s.pc t).assigned) ∧
    ((∀ t, (s.pc t).inside = false) → s.mutex = .unlocked) ∧
    (∀ a e, Step ids M s a (.error e) → ∃ t b, s.pc t = .updating b ∧
      M.update b s.value = .error e) ∧
    ∀ t, s.pc t ≠ .outside → s.pc t ≠ .sleeping false → ∃ a r, a.GoesOn ∧ Step ids M s a r := by
  have inv := Invariant.of_reachable h
  refine ⟨fun t u => inv.unique, inv.isLockedByThisThread_eq, inv.unlocked, fun a e hstep => ?_,
    fun t => inv.exists_step M⟩
  obtain ⟨t, b, -, hpc, hupdate⟩ := inv.of_error hstep
  exact ⟨t, b, hpc, hupdate⟩

/-- A thread sleeps, another one has updated the flag and not notified it yet. -/
theorem holder_tells_the_truth_notifying : ∃ s : Guarded Bool Bool PUnit,
    s.mutex.isLockedByThisThread 8 = true ∧ s.mutex.isLockedByThisThread 7 = false ∧
    s.pc true = .sleeping false ∧ s.value = false := by
  let ids : ThreadIds Bool := {
    tid := fun t => if t then 7 else 8
    injective := fun t u h => by cases t <;> cases u <;> first | rfl | cases h
    ne_zero := by decide }
  let M : Monitor Bool PUnit Fault := ⟨fun _ => True, id, fun _ _ => .ok (false, true)⟩
  have hinit : (machine ids M).init ⟨.unlocked, true, fun _ => .outside⟩ :=
    ⟨trivial, rfl, fun _ => rfl⟩
  have hrun : (machine ids M).Run ⟨.unlocked, true, fun _ => .outside⟩
      [.call true .wait, .lock true, .assignHolder true, .test true, .release true, .sleep true,
        .call false (.update ⟨⟩), .lock false, .assignHolder false, .update false] _ :=
    .cons (.call rfl) <| .cons (.lock rfl rfl) <| .cons (.assignHolder rfl) <|
      .cons (.test rfl) <| .cons (.release rfl) <| .cons (.sleep rfl rfl) <|
      .cons (.call rfl) <| .cons (.lock rfl rfl) <| .cons (.assignHolder rfl) <|
      .single (.update rfl rfl)
  have hall := holder_tells_the_truth ids M ((System.Reachable.of_init hinit).run hrun)
  exact ⟨_, hall.2.1 false, hall.2.1 true, rfl, rfl⟩

end Guarded

end Dxian
