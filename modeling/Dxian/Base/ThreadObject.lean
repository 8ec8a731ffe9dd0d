import Dxian.Base.CriticalSections
import Dxian.Base.ThreadStart
import Mathlib.Algebra.Group.Prod

/-!
# The life of a `Thread`

The thread that `start` creates writes `tid_` and counts `latch_` down, both members of the
`Thread`, while its owner waits for the latch. The owner may then destroy the `Thread`, with
or without `join`. `func_` and `name_` are copied to a `ThreadData`, which is deleted when
`func_` has returned; an exception that leaves `func_` stops the program. The accesses to the
latch are single steps.

## Main results

- `Invariant.step` — where the two threads are, in the latch and out of it
- `thread_object_life` — no access to a destroyed `Thread`, and who releases the new thread
-/

namespace Dxian

open Transition

namespace ThreadObject

open ThreadStart (Party)

/-- The mutex, the condition and the count of `latch_`. -/
abbrev Latch := Guarded Party ℤ CountDownLatch.Call

/-- Where the owner is: outside of the functions, before `pthread_create`, in
`latch_.wait()`, before `assert(tid_ > 0)`, before `pthread_join`, before `pthread_detach`,
at the end of the destructor, where the members are destroyed, or past it. -/
inductive OwnerPc
  | outside
  | creating
  | waiting
  | asserting
  | joining
  | detaching
  | destroying
  | destroyed
deriving DecidableEq

/-- Where the new thread is: before the write of `tid_`, in `latch_->countDown()`, before the
write of `t_threadName`, in `func_()`, in a handler for what it has thrown, before
`delete data`, or past it. -/
inductive CreatedPc
  | notCreated
  | writing
  | counting
  | naming
  | running
  | crashing
  | deleting
  | ended
deriving DecidableEq

/-- What `pthreadId_` is good for. -/
inductive Pthread
  | none
  | joinable
  | joined
  | detached
deriving DecidableEq

/-- What `t_threadName` points to: a literal, or `name_` of the `ThreadData`. -/
inductive ThreadName
  | unknown
  | muduoThread
  | name_
  | finished
  | crashed
deriving DecidableEq

inductive Action
  | start
  | create
  | failToCreate
  | wait (x : Guarded.Action Party CountDownLatch.Call)
  | assertTid
  | join
  | pthreadJoin
  | destruct
  | pthreadDetach
  | destroyMembers
  | writeTid
  | countDown (x : Guarded.Action Party CountDownLatch.Call)
  | setThreadName
  | finishFunc
  | throwFunc
  | crash
  | deleteData

end ThreadObject

/-- `class Thread`, what the new thread has, and where the two threads are. -/
structure ThreadObject where
  started_ : Bool
  joined_ : Bool
  tid_ : ℤ
  latch_ : ThreadObject.Latch
  pthreadId_ : ThreadObject.Pthread
  t_threadName : ThreadObject.ThreadName
  owner : ThreadObject.OwnerPc
  created : ThreadObject.CreatedPc

namespace Guarded

variable {T V α : Type*}

/-- The thread that takes the step. -/
def Action.actor : Action T α → T
  | call t _ | lock t | assignHolder t | test t | release t | sleep t | wake t | wakeSpuriously t
  | relock t | reassign t | update t | notify t _ | unassignHolder t | unlock t => t

/-- Behind the call. -/
def Pc.returned : Pc V α → Bool
  | outside => true
  | _ => false

/-- In the function that waits. -/
def Pc.waits : Pc V α → Bool
  | locking .wait | assigning .wait | testing | releasing | waiting | sleeping _ | relocking
  | reassigning | unassigning | unlocking => true
  | _ => false

/-- Behind the loop, up to the end of the function. -/
def Pc.leaves : Pc V α → Bool
  | unassigning | unlocking => true
  | _ => false

/-- In a function that updates, before the update. -/
def Pc.willUpdate : Pc V α → Bool
  | locking (.update _) | assigning (.update _) | updating _ => true
  | _ => false

/-- In a function that updates, behind the update. -/
def Pc.hasUpdated : Pc V α → Bool
  | notifying .. | unassigning | unlocking => true
  | _ => false

end Guarded

namespace ThreadObject

open ThreadStart (Party)

variable (ids : ThreadIds Party) (emptyName : Bool)

/-- The members can be destroyed: `assert(holder_ == 0)`, nobody holds the mutex and nobody is
in the condition. -/
def Latch.Destructible (l : Latch) : Prop :=
  l.mutex = .unlocked ∧ ∀ t, (l.pc t).returned = true

/-- One step of one of the threads. If `pthread_create` fails, `LOG_SYSFATAL` stops the
program. The new thread has a pointer to `tid_` and one to `latch_`. Each of the handlers of
`runInThread` writes `t_threadName` and then stops the program: two of them call `abort()`, the
third throws again, and `startThread` catches nothing. -/
inductive Step (s : ThreadObject) : Action → Except Fault ThreadObject → Prop
  | start (hpc : s.owner = .outside) (hstarted : s.started_ = false) :
      Step s .start (.ok { s with started_ := true, owner := .creating })
  | startAgain (hpc : s.owner = .outside) (hstarted : s.started_ = true) :
      Step s .start (.error .assertion)
  | create (hpc : s.owner = .creating) : Step s .create (.ok { s with
      latch_ := s.latch_.move .caller (.locking .wait)
      pthreadId_ := .joinable
      owner := .waiting
      created := .writing })
  | failToCreate (hpc : s.owner = .creating) : Step s .failToCreate (.error .sysFatal)
  | wait {x l} (hpc : s.owner = .waiting) (hx : x.actor = .caller)
      (hstep : Guarded.Step ids countDownLatch s.latch_ x (.ok l)) :
      Step s (.wait x) (.ok { s with
        latch_ := l
        owner := if (l.pc .caller).returned then .asserting else .waiting })
  | waitFails {x e} (hpc : s.owner = .waiting) (hx : x.actor = .caller)
      (hstep : Guarded.Step ids countDownLatch s.latch_ x (.error e)) :
      Step s (.wait x) (.error e)
  | assertTid (hpc : s.owner = .asserting) (htid : 0 < s.tid_) :
      Step s .assertTid (.ok { s with owner := .outside })
  | assertFails (hpc : s.owner = .asserting) (htid : ¬ 0 < s.tid_) :
      Step s .assertTid (.error .assertion)
  | join (hpc : s.owner = .outside) (hstarted : s.started_ = true) (hjoined : s.joined_ = false) :
      Step s .join (.ok { s with joined_ := true, owner := .joining })
  | joinFails (hpc : s.owner = .outside) (hnot : s.started_ = false ∨ s.joined_ = true) :
      Step s .join (.error .assertion)
  | pthreadJoin (hpc : s.owner = .joining) (hid : s.pthreadId_ = .joinable)
      (hended : s.created = .ended) :
      Step s .pthreadJoin (.ok { s with pthreadId_ := .joined, owner := .outside })
  | pthreadJoinInvalid (hpc : s.owner = .joining) (hid : s.pthreadId_ ≠ .joinable) :
      Step s .pthreadJoin (.error .useAfterFree)
  | destruct (hpc : s.owner = .outside) : Step s .destruct (.ok { s with
      owner := if s.started_ && !s.joined_ then .detaching else .destroying })
  | pthreadDetach (hpc : s.owner = .detaching) (hid : s.pthreadId_ = .joinable) :
      Step s .pthreadDetach (.ok { s with pthreadId_ := .detached, owner := .destroying })
  | pthreadDetachInvalid (hpc : s.owner = .detaching) (hid : s.pthreadId_ ≠ .joinable) :
      Step s .pthreadDetach (.error .useAfterFree)
  | destroyMembers (hpc : s.owner = .destroying) (hlatch : s.latch_.Destructible) :
      Step s .destroyMembers (.ok { s with owner := .destroyed })
  | destroyFails (hpc : s.owner = .destroying) (hlatch : ¬ s.latch_.Destructible) :
      Step s .destroyMembers (.error .assertion)
  | writeTid (hpc : s.created = .writing) (halive : s.owner ≠ .destroyed) :
      Step s .writeTid (.ok { s with
        tid_ := ids.tid .created
        latch_ := s.latch_.move .created (.locking (.update .countDown))
        created := .counting })
  | writeTidDestroyed (hpc : s.created = .writing) (hgone : s.owner = .destroyed) :
      Step s .writeTid (.error .useAfterFree)
  | countDown {x l} (hpc : s.created = .counting) (halive : s.owner ≠ .destroyed)
      (hx : x.actor = .created) (hstep : Guarded.Step ids countDownLatch s.latch_ x (.ok l)) :
      Step s (.countDown x) (.ok { s with
        latch_ := l
        created := if (l.pc .created).returned then .naming else .counting })
  | countDownFails {x e} (hpc : s.created = .counting) (halive : s.owner ≠ .destroyed)
      (hx : x.actor = .created)
      (hstep : Guarded.Step ids countDownLatch s.latch_ x (.error e)) :
      Step s (.countDown x) (.error e)
  | countDownDestroyed {x} (hpc : s.created = .counting) (hgone : s.owner = .destroyed) :
      Step s (.countDown x) (.error .useAfterFree)
  | setThreadName (hpc : s.created = .naming) : Step s .setThreadName (.ok { s with
      t_threadName := if emptyName then .muduoThread else .name_
      created := .running })
  | finishFunc (hpc : s.created = .running) :
      Step s .finishFunc (.ok { s with t_threadName := .finished, created := .deleting })
  | throwFunc (hpc : s.created = .running) :
      Step s .throwFunc (.ok { s with t_threadName := .crashed, created := .crashing })
  | crash (hpc : s.created = .crashing) : Step s .crash (.error .aborted)
  | deleteData (hpc : s.created = .deleting) :
      Step s .deleteData (.ok { s with created := .ended })

/-- A `Thread` as constructed. -/
def fresh : ThreadObject where
  started_ := false
  joined_ := false
  tid_ := 0
  latch_ := ⟨.unlocked, 1, fun _ => .outside⟩
  pthreadId_ := .none
  t_threadName := .unknown
  owner := .outside
  created := .notCreated

/-- The owner and the new thread; `emptyName` says whether `name_` is empty. -/
def machine : System ThreadObject Action Fault where
  init s := s = fresh
  step := Step ids emptyName

variable {ids emptyName} {s t : ThreadObject}

/-! ## The flags and the handle -/

/-- The flags that the owner's place allows. -/
def OwnerPc.allows : OwnerPc → Bool → Bool → Bool
  | outside | destroying | destroyed => fun started joined => started || !joined
  | creating | waiting | asserting | detaching => fun started joined => started && !joined
  | joining => fun started joined => started && joined

/-- The owner has not called `pthread_create`. -/
def OwnerPc.beforeCreate : OwnerPc → Bool → Bool
  | creating => fun _ => true
  | _ => fun started => !started

/-- What the flags and the owner's place say about the handle. -/
def handleOf (started joined : Bool) : OwnerPc → Pthread
  | .creating => .none
  | .joining => .joinable
  | .destroying | .destroyed =>
    if started then (if joined then .joined else .detached) else .none
  | _ => if started then (if joined then .joined else .joinable) else .none

/-- The owner's side of the invariant, and what is left of the new thread. -/
structure Handle (s : ThreadObject) : Prop where
  flags : s.owner.allows s.started_ s.joined_ = true
  pthreadId_ : s.pthreadId_ = handleOf s.started_ s.joined_ s.owner
  created : s.created = .notCreated ↔ s.owner.beforeCreate s.started_ = true
  joined : s.pthreadId_ = .joined → s.created = .ended
  name : s.t_threadName = .name_ → s.created = .running

theorem Handle.fresh : Handle fresh where
  flags := rfl
  pthreadId_ := rfl
  created := iff_of_true rfl rfl
  joined := nofun
  name := nofun

/-- The new thread goes on. -/
theorem Handle.created_step (h : Handle s) (hbefore : s.created ≠ .notCreated ∧ s.created ≠ .ended)
    {tid : ℤ} {l : Latch} {name : ThreadName} {pc : CreatedPc} (hpc : pc ≠ .notCreated)
    (hname : name = .name_ → pc = .running) :
    Handle { s with tid_ := tid, latch_ := l, t_threadName := name, created := pc } where
  flags := h.flags
  pthreadId_ := h.pthreadId_
  created := iff_of_false hpc fun hor => hbefore.1 (h.created.mpr hor)
  joined hjoined := absurd (h.joined hjoined) hbefore.2
  name := hname

/-- **Step lemma** for the handle. -/
theorem Handle.step (h : Handle s) {a : Action} (hstep : Step ids emptyName s a (.ok t)) :
    Handle t := by
  obtain ⟨hflags, hid, hcreated, hjoined, hname⟩ := h
  cases hstep with
  | start hpc hstarted =>
    rw [hpc, hstarted] at hflags hid
    exact {
      flags := hflags
      pthreadId_ := hid
      created := iff_of_true (hcreated.mpr (by rw [hpc, hstarted]; rfl)) rfl
      joined := hjoined
      name := hname }
  | create hpc =>
    rw [hpc] at hflags
    have hboth : s.started_ = true ∧ s.joined_ = false := by simpa [OwnerPc.allows] using hflags
    exact {
      flags := hflags
      pthreadId_ := by rw [hboth.1, hboth.2]; rfl
      created := iff_of_false nofun (by rw [hboth.1]; nofun)
      joined := nofun
      name := fun h => by cases (hname h).symm.trans (hcreated.mpr (by rw [hpc]; rfl)) }
  | @wait x l hpc _ _ =>
    rw [hpc] at hflags hid hcreated
    cases (l.pc .caller).returned <;> exact ⟨hflags, hid, hcreated, hjoined, hname⟩
  | assertTid hpc _ =>
    rw [hpc] at hflags hid hcreated
    have hboth : s.started_ = true ∧ s.joined_ = false := by simpa [OwnerPc.allows] using hflags
    exact ⟨by rw [hboth.1, hboth.2]; rfl, hid, hcreated, hjoined, hname⟩
  | join hpc hstarted hnot =>
    rw [hpc] at hid hcreated
    rw [hstarted, hnot] at hid
    exact ⟨by rw [hstarted]; rfl, hid, hcreated, hjoined, hname⟩
  | pthreadJoin hpc _ hended =>
    rw [hpc] at hflags hcreated
    have hboth : s.started_ = true ∧ s.joined_ = true := by simpa [OwnerPc.allows] using hflags
    exact ⟨by rw [hboth.1, hboth.2]; rfl, by rw [hboth.1, hboth.2]; rfl, hcreated,
      fun _ => hended, hname⟩
  | destruct hpc =>
    rw [hpc] at hflags hid hcreated
    cases hstarted : s.started_ <;> cases hnot : s.joined_ <;>
      rw [hstarted, hnot] at hflags hid <;> rw [hstarted] at hcreated <;>
      exact ⟨hflags, hid, hcreated, hjoined, hname⟩
  | pthreadDetach hpc _ =>
    rw [hpc] at hflags hcreated
    have hboth : s.started_ = true ∧ s.joined_ = false := by simpa [OwnerPc.allows] using hflags
    exact ⟨by rw [hboth.1, hboth.2]; rfl, by rw [hboth.1, hboth.2]; rfl, hcreated, nofun, hname⟩
  | destroyMembers hpc _ =>
    rw [hpc] at hflags hid hcreated
    exact ⟨hflags, hid, hcreated, hjoined, hname⟩
  | writeTid hpc _ =>
    exact Handle.created_step ⟨hflags, hid, hcreated, hjoined, hname⟩
      (by rw [hpc]; exact ⟨nofun, nofun⟩) nofun
      fun h => by cases hpc.symm.trans (hname h)
  | @countDown x l hpc _ _ _ =>
    refine Handle.created_step ⟨hflags, hid, hcreated, hjoined, hname⟩
      (by rw [hpc]; exact ⟨nofun, nofun⟩) ?_ fun h => by cases hpc.symm.trans (hname h)
    cases (l.pc .created).returned <;> nofun
  | setThreadName hpc =>
    exact Handle.created_step ⟨hflags, hid, hcreated, hjoined, hname⟩
      (by rw [hpc]; exact ⟨nofun, nofun⟩) nofun fun _ => rfl
  | finishFunc hpc | throwFunc hpc =>
    exact Handle.created_step ⟨hflags, hid, hcreated, hjoined, hname⟩
      (by rw [hpc]; exact ⟨nofun, nofun⟩) nofun nofun
  | deleteData hpc =>
    exact Handle.created_step ⟨hflags, hid, hcreated, hjoined, hname⟩
      (by rw [hpc]; exact ⟨nofun, nofun⟩) nofun
      fun h => by cases hpc.symm.trans (hname h)

/-! ## The latch -/

end ThreadObject

namespace Guarded

variable {T V α : Type*} [DecidableEq T] {ids : ThreadIds T} {M : Monitor V α Fault}
variable {l l' : Guarded T V α} {x : Action T α}

@[simp] theorem Pc.waits_notify (p : Pc V α) : p.notify.waits = p.waits := by
  cases p <;> rfl

@[simp] theorem Pc.leaves_notify (p : Pc V α) : p.notify.leaves = p.leaves := by
  cases p <;> rfl

@[simp] theorem Pc.returned_notify (p : Pc V α) : p.notify.returned = p.returned := by
  cases p <;> rfl

/-- What a thread does in the function that waits. -/
theorem Step.of_waits {t : T} (h : Step ids M l x (.ok l')) (hx : x.actor = t)
    (hpc : (l.pc t).waits = true) : ∃ m p, l' = ⟨m, l.value, Function.update l.pc t p⟩ ∧
      (p.waits = true ∨ p.returned = true) ∧ (p.leaves = true ∨ p.returned = true →
        (l.pc t).leaves = true ∨ (l.pc t).inside = true ∧ M.busy l.value = false) := by
  have hstay : ∀ {p : Pc V α} {P : Prop}, p.leaves = false → p.returned = false →
      p.leaves = true ∨ p.returned = true → P := by
    rintro p P hleaves hreturned (h | h)
    · cases hleaves.symm.trans h
    · cases hreturned.symm.trans h
  cases h with
  | @call u _ h | @update u _ _ h | @notify u _ _ _ h =>
    obtain rfl : u = t := hx
    rw [h] at hpc
    cases hpc
  | @lock u b h | @assignHolder u b h =>
    obtain rfl : u = t := hx
    rw [h] at hpc
    cases b with
    | wait => exact ⟨_, _, rfl, .inl rfl, hstay rfl rfl⟩
    | update => cases hpc
  | @test u h =>
    obtain rfl : u = t := hx
    cases hbusy : M.busy l.value with
    | true => exact ⟨_, _, rfl, .inl rfl, hstay rfl rfl⟩
    | false => exact ⟨_, _, rfl, .inl rfl, fun _ => .inr ⟨by rw [h]; rfl, rfl⟩⟩
  | @release u | @wake u | @wakeSpuriously u | @relock u | @reassign u =>
    obtain rfl : u = t := hx
    exact ⟨_, _, rfl, .inl rfl, hstay rfl rfl⟩
  | @sleep u _ _ hr =>
    obtain rfl : u = t := hx
    obtain ⟨m, -, rfl⟩ := exists_of_map_eq_ok hr
    exact ⟨_, _, rfl, .inl rfl, hstay rfl rfl⟩
  | @unassignHolder u h =>
    obtain rfl : u = t := hx
    exact ⟨_, _, rfl, .inl rfl, fun _ => .inl (by rw [h]; rfl)⟩
  | @unlock u _ h hr =>
    obtain rfl : u = t := hx
    obtain ⟨m, -, rfl⟩ := exists_of_map_eq_ok hr
    exact ⟨_, _, rfl, .inr rfl, fun _ => .inl (by rw [h]; rfl)⟩

/-- What a thread does in a function that updates. -/
theorem Step.of_updates {t : T} (h : Step ids M l x (.ok l')) (hx : x.actor = t)
    (hpc : (l.pc t).willUpdate = true ∨ (l.pc t).hasUpdated = true) :
    ∃ m v pc p, l' = ⟨m, v, Function.update pc t p⟩ ∧ (pc = l.pc ∨ pc = l.notifyAll.pc) ∧
      ((l.pc t).willUpdate = true ∧ p.willUpdate = true ∧ v = l.value ∨
        (l.pc t).willUpdate = true ∧ p.hasUpdated = true ∧
          (∃ a broadcast, M.update a l.value = .ok (v, broadcast)) ∨
        (l.pc t).hasUpdated = true ∧ (p.hasUpdated = true ∨ p.returned = true) ∧ v = l.value) := by
  have hout : ∀ {p : Pc V α} {P : Prop}, l.pc t = p → p.willUpdate = false →
      p.hasUpdated = false → P := by
    intro p P hp hwill hhas
    rw [hp, hwill, hhas] at hpc
    cases hpc <;> contradiction
  cases h with
  | @call u _ h | @test u h | @release u h | @wake u h | @wakeSpuriously u h | @relock u h
  | @reassign u h | @sleep u _ h =>
    obtain rfl : u = t := hx
    exact hout h rfl rfl
  | @lock u b h | @assignHolder u b h =>
    obtain rfl : u = t := hx
    cases b with
    | wait => exact hout h rfl rfl
    | update => exact ⟨_, _, _, _, rfl, .inl rfl, .inl ⟨by rw [h]; rfl, rfl, rfl⟩⟩
  | @update u a _ h hr =>
    obtain rfl : u = t := hx
    obtain ⟨y, hy, rfl⟩ := exists_of_map_eq_ok hr
    exact ⟨_, _, _, _, rfl, .inl rfl, .inr (.inl ⟨by rw [h]; rfl, rfl, a, _, hy⟩)⟩
  | @notify u _ _ broadcast h =>
    obtain rfl : u = t := hx
    have hhas : (l.pc u).hasUpdated = true := by rw [h]; rfl
    cases broadcast with
    | false => exact ⟨_, _, _, _, rfl, .inl rfl, .inr (.inr ⟨hhas, .inl rfl, rfl⟩)⟩
    | true => exact ⟨_, _, _, _, rfl, .inr rfl, .inr (.inr ⟨hhas, .inl rfl, rfl⟩)⟩
  | @unassignHolder u h =>
    obtain rfl : u = t := hx
    exact ⟨_, _, _, _, rfl, .inl rfl, .inr (.inr ⟨by rw [h]; rfl, .inl rfl, rfl⟩)⟩
  | @unlock u _ h hr =>
    obtain rfl : u = t := hx
    obtain ⟨m, -, rfl⟩ := exists_of_map_eq_ok hr
    exact ⟨_, _, _, _, rfl, .inl rfl, .inr (.inr ⟨by rw [h]; rfl, .inr rfl, rfl⟩)⟩

end Guarded

namespace ThreadObject

open ThreadStart (Party)

variable {ids : ThreadIds Party} {emptyName : Bool} {s t : ThreadObject}

/-- The new thread has returned from `countDown`. -/
def CreatedPc.counted : CreatedPc → Bool
  | naming | running | crashing | deleting | ended => true
  | _ => false

/-- Where the two threads are in the latch, and what they have written. -/
structure Latched (ids : ThreadIds Party) (s : ThreadObject) : Prop where
  guarded : Guarded.Invariant ids s.latch_
  waiting : s.owner = .waiting → (s.latch_.pc .caller).waits = true
  notWaiting : s.owner ≠ .waiting → (s.latch_.pc .caller).returned = true
  counting : s.created = .counting →
    (s.latch_.pc .created).willUpdate = true ∧ s.latch_.value = 1 ∨
      (s.latch_.pc .created).hasUpdated = true ∧ s.latch_.value = 0
  notCounting : s.created ≠ .counting → (s.latch_.pc .created).returned = true ∧
    s.latch_.value = if s.created.counted then 0 else 1
  passed : (s.latch_.pc .caller).leaves = true ∨ (s.latch_.pc .caller).returned = true →
    s.created = .notCreated ∨ s.created.counted = true
  tid_ : s.created = .counting ∨ s.created.counted = true → s.tid_ = ids.tid .created

theorem Latched.fresh : Latched ids fresh where
  guarded := Guarded.invariant_init (M := countDownLatch)
    ⟨show CInt.InRange 1 by decide, rfl, fun _ => rfl⟩
  waiting := nofun
  notWaiting _ := rfl
  counting := nofun
  notCounting _ := ⟨rfl, rfl⟩
  passed _ := .inl rfl
  tid_ h := by obtain h | h := h <;> cases h

/-- The owner goes on outside of `wait`. -/
theorem Latched.owner_step (h : Latched ids s) (hbefore : s.owner ≠ .waiting)
    (hafter : t.owner ≠ .waiting)
    (hsame : t.latch_ = s.latch_ ∧ t.created = s.created ∧ t.tid_ = s.tid_) : Latched ids t := by
  obtain ⟨hlatch, hcreated, htid⟩ := hsame
  exact {
    guarded := by rw [hlatch]; exact h.guarded
    waiting := fun hw => absurd hw hafter
    notWaiting := fun _ => by rw [hlatch]; exact h.notWaiting hbefore
    counting := by rw [hlatch, hcreated]; exact h.counting
    notCounting := by rw [hlatch, hcreated]; exact h.notCounting
    passed := by rw [hlatch, hcreated]; exact h.passed
    tid_ := by rw [hcreated, htid]; exact h.tid_ }

/-- The new thread goes on behind `countDown`. -/
theorem Latched.created_step (h : Latched ids s) (hbefore : s.created.counted = true)
    {name : ThreadName} {pc : CreatedPc} (hafter : pc.counted = true) :
    Latched ids { s with t_threadName := name, created := pc } where
  guarded := h.guarded
  waiting := h.waiting
  notWaiting := h.notWaiting
  counting hc := by
    rw [show pc = .counting from hc] at hafter
    cases hafter
  notCounting _ := by
    have hnot : s.created ≠ .counting := by
      intro hc
      rw [hc] at hbefore
      cases hbefore
    obtain ⟨hreturned, hvalue⟩ := h.notCounting hnot
    rw [hbefore] at hvalue
    exact ⟨hreturned, by rw [hafter]; exact hvalue⟩
  passed _ := .inr hafter
  tid_ _ := h.tid_ (.inr hbefore)

theorem inside_of_hasUpdated {p : Guarded.Pc ℤ CountDownLatch.Call}
    (h : p.hasUpdated = true) : p.inside = true := by
  cases p <;> first | rfl | cases h

theorem not_willUpdate {p : Guarded.Pc ℤ CountDownLatch.Call} (h : p.hasUpdated = true) :
    p.willUpdate = false := by
  cases p <;> first | rfl | cases h

theorem outside_of_returned {p : Guarded.Pc ℤ CountDownLatch.Call} (h : p.returned = true) :
    p = .outside := by
  cases p <;> first | rfl | cases h

/-- The owner takes a step in `wait`. -/
theorem Latched.wait (h : Latched ids s) (hpc : s.owner = .waiting)
    {x : Guarded.Action Party CountDownLatch.Call} {l : Latch} (hx : x.actor = .caller)
    (hstep : Guarded.Step ids countDownLatch s.latch_ x (.ok l)) :
    Latched ids { s with
      latch_ := l
      owner := if (l.pc .caller).returned then .asserting else .waiting } := by
  obtain ⟨m, p, hl, hwaits, hleaves⟩ := hstep.of_waits hx (h.waiting hpc)
  have hpcs : l.pc = Function.update s.latch_.pc .caller p := congrArg Guarded.pc hl
  have hcaller : l.pc .caller = p := by rw [hpcs, Function.update_self]
  have hother : l.pc .created = s.latch_.pc .created := by
    rw [hpcs, Function.update_of_ne (by decide)]
  have hvalue : l.value = s.latch_.value := by rw [hl]
  rw [← hcaller] at hwaits hleaves
  constructor <;> dsimp only <;> try rw [hother, hvalue]
  · exact h.guarded.step hstep
  · intro hw
    refine hwaits.resolve_right fun hr => ?_
    rw [if_pos hr] at hw
    cases hw
  · intro hw
    by_contra hr
    exact hw (if_neg hr)
  · exact h.counting
  · exact h.notCounting
  · intro hl
    rcases hleaves hl with hleft | ⟨hinside, hbusy⟩
    · exact h.passed (.inl hleft)
    · -- the count is not positive, and the new thread is not in the mutex
      have hcount := CountDownLatch.not_busy_iff.mp hbusy
      by_cases hc : s.created = .counting
      · rcases h.counting hc with ⟨-, hone⟩ | ⟨hhas, -⟩
        · omega
        · cases h.guarded.unique hinside (inside_of_hasUpdated hhas)
      · have hzero := (h.notCounting hc).2
        by_contra hnot
        rw [if_neg fun hcounted => hnot (.inr hcounted)] at hzero
        omega
  · exact h.tid_

/-- The new thread takes a step in `countDown`. -/
theorem Latched.countDown (h : Latched ids s) (hpc : s.created = .counting)
    {x : Guarded.Action Party CountDownLatch.Call} {l : Latch} (hx : x.actor = .created)
    (hstep : Guarded.Step ids countDownLatch s.latch_ x (.ok l)) :
    Latched ids { s with
      latch_ := l
      created := if (l.pc .created).returned then .naming else .counting } := by
  have hcounting := h.counting hpc
  obtain ⟨m, v, pc, p, hl, hpcs, hcases⟩ :=
    hstep.of_updates hx (hcounting.imp And.left And.left)
  have hpc' : l.pc = Function.update pc .created p := congrArg Guarded.pc hl
  have hcreated : l.pc .created = p := by rw [hpc', Function.update_self]
  have hvalue : l.value = v := by rw [hl]
  have hsame : ∀ {f : Guarded.Pc ℤ CountDownLatch.Call → Bool}, (∀ q, f q.notify = f q) →
      f (l.pc .caller) = f (s.latch_.pc .caller) := by
    intro f hf
    rw [hpc', Function.update_of_ne (by decide)]
    obtain rfl | rfl := hpcs
    · rfl
    · exact hf _
  rw [← hcreated, ← hvalue] at hcases
  have hafter : (l.pc .created).willUpdate = true ∧ l.value = 1 ∨
      (l.pc .created).hasUpdated = true ∧ l.value = 0 ∨
      (l.pc .created).returned = true ∧ l.value = 0 := by
    have hone : (s.latch_.pc .created).willUpdate = true → s.latch_.value = 1 := by
      intro hwill
      rcases hcounting with ⟨-, hone⟩ | ⟨hhas, -⟩
      · exact hone
      · cases hwill.symm.trans (not_willUpdate hhas)
    rcases hcases with ⟨hwill, hwill', hsame⟩ | ⟨hwill, hhas', a, broadcast, hupdate⟩ |
      ⟨hhas, hafter, hsame⟩
    · exact .inl ⟨hwill', hsame.trans (hone hwill)⟩
    · cases a
      have hless := (CountDownLatch.countDown_eq_ok hupdate).1
      rw [hone hwill] at hless
      exact .inr (.inl ⟨hhas', hless⟩)
    · rcases hcounting with ⟨hwill, -⟩ | ⟨-, hzero⟩
      · cases hwill.symm.trans (not_willUpdate hhas)
      · rw [hsame, hzero]
        exact .inr (hafter.imp (⟨·, rfl⟩) (⟨·, rfl⟩))
  constructor <;> dsimp only
  · exact h.guarded.step hstep
  · rw [hsame Guarded.Pc.waits_notify]
    exact h.waiting
  · rw [hsame Guarded.Pc.returned_notify]
    exact h.notWaiting
  · intro hc
    rcases hafter with hwill | hhas | ⟨hreturned, -⟩
    · exact .inl hwill
    · exact .inr hhas
    · rw [if_pos hreturned] at hc
      cases hc
  · intro hc
    have hreturned : (l.pc .created).returned = true := by
      by_contra hnot
      exact hc (if_neg hnot)
    refine ⟨hreturned, ?_⟩
    rw [if_pos hreturned]
    rcases hafter with ⟨hwill, -⟩ | ⟨hhas, -⟩ | ⟨-, hzero⟩
    · rw [outside_of_returned hreturned] at hwill
      cases hwill
    · rw [outside_of_returned hreturned] at hhas
      cases hhas
    · exact hzero
  · rw [hsame Guarded.Pc.leaves_notify, hsame Guarded.Pc.returned_notify]
    intro hl
    -- the owner has not seen the count yet
    rcases h.passed hl with hnot | hcounted
    · cases hpc.symm.trans hnot
    · rw [hpc] at hcounted
      cases hcounted
  · exact fun _ => h.tid_ (.inl hpc)

/-- **Step lemma** for the latch. -/
theorem Latched.step (h : Latched ids s) (hhandle : Handle s) {a : Action}
    (hstep : Step ids emptyName s a (.ok t)) : Latched ids t := by
  cases hstep with
  | start hpc _ | assertTid hpc _ | join hpc _ _ | pthreadJoin hpc _ _ | pthreadDetach hpc _
  | destroyMembers hpc _ =>
    exact h.owner_step (by rw [hpc]; nofun) nofun ⟨rfl, rfl, rfl⟩
  | destruct hpc =>
    refine h.owner_step (by rw [hpc]; nofun) ?_ ⟨rfl, rfl, rfl⟩
    show (if _ then _ else _) ≠ _
    split <;> nofun
  | create hpc =>
    have hnot : s.created = .notCreated := hhandle.created.mpr (by rw [hpc]; rfl)
    have hcaller := outside_of_returned (h.notWaiting (by rw [hpc]; nofun))
    have hpcs : (s.latch_.move .caller (.locking .wait)).pc .caller = .locking .wait := by
      rw [Guarded.move_pc, Function.update_self]
    have hother : (s.latch_.move .caller (.locking .wait)).pc .created = s.latch_.pc .created := by
      rw [Guarded.move_pc, Function.update_of_ne (by decide)]
    have hcount := h.notCounting (by rw [hnot]; nofun)
    rw [hnot] at hcount
    constructor <;> dsimp only <;> try rw [hpcs]
    · exact h.guarded.move_outside (by rw [hcaller]; rfl) rfl
    · exact fun _ => rfl
    · exact fun hne => absurd rfl hne
    · nofun
    · rw [hother]
      exact fun _ => hcount
    · rintro (hl | hl) <;> cases hl
    · rintro (hc | hc) <;> cases hc
  | wait hpc hx hstep => exact h.wait hpc hx hstep
  | writeTid hpc _ =>
    obtain ⟨hreturned, hone⟩ := h.notCounting (by rw [hpc]; nofun)
    rw [hpc] at hone
    have hpcs : (s.latch_.move .created (.locking (.update .countDown))).pc .created =
        .locking (.update .countDown) := by
      rw [Guarded.move_pc, Function.update_self]
    have hother : (s.latch_.move .created (.locking (.update .countDown))).pc .caller =
        s.latch_.pc .caller := by
      rw [Guarded.move_pc, Function.update_of_ne (by decide)]
    constructor <;> dsimp only <;> try rw [hother]
    · exact h.guarded.move_outside (by rw [outside_of_returned hreturned]; rfl) rfl
    · exact h.waiting
    · exact h.notWaiting
    · rw [hpcs]
      exact fun _ => .inl ⟨rfl, hone⟩
    · exact fun hne => absurd rfl hne
    · intro hl
      rcases h.passed hl with hc | hc <;> rw [hpc] at hc <;> cases hc
    · exact fun _ => rfl
  | countDown hpc _ hx hstep => exact h.countDown hpc hx hstep
  | setThreadName hpc | finishFunc hpc | throwFunc hpc | deleteData hpc =>
    exact h.created_step (by rw [hpc]; rfl) rfl

theorem invariant_of_reachable (h : (machine ids emptyName).Reachable s) :
    Handle s ∧ Latched ids s := by
  refine h.invariant (I := fun s => Handle s ∧ Latched ids s) (fun {s} hinit => ?_)
    fun inv hstep => ⟨inv.1.step hstep, inv.2.step inv.1 hstep⟩
  rw [show s = ThreadObject.fresh from hinit]
  exact ⟨.fresh, .fresh⟩

/-! ## Faults, and what is left behind -/

/-- Once the owner has left `wait`, the new thread is past the members. -/
theorem Latched.past (h : Latched ids s) (howner : s.owner ≠ .waiting) :
    s.created = .notCreated ∨ s.created.counted = true :=
  h.passed (.inr (h.notWaiting howner))

theorem Latched.destructible (h : Latched ids s) (howner : s.owner ≠ .waiting) :
    s.latch_.Destructible := by
  have hreturned : ∀ p, (s.latch_.pc p).returned = true := by
    intro p
    cases p with
    | caller => exact h.notWaiting howner
    | created =>
      refine (h.notCounting fun hc => ?_).1
      rcases h.past howner with hpast | hpast <;> rw [hc] at hpast <;> cases hpast
  refine ⟨h.guarded.unlocked fun p => ?_, hreturned⟩
  rw [outside_of_returned (hreturned p)]
  rfl

/-- What stops the program. -/
theorem of_error (hhandle : Handle s) (h : Latched ids s) (htid : 0 < ids.tid .created)
    {a : Action} {e : Fault} (hstep : Step ids emptyName s a (.error e)) :
    a = .start ∧ e = .assertion ∧ s.started_ = true ∨ a = .failToCreate ∧ e = .sysFatal ∨
      a = .join ∧ e = .assertion ∧ (s.started_ = false ∨ s.joined_ = true) ∨
      a = .crash ∧ e = .aborted := by
  have hgone : ∀ {pc : CreatedPc}, s.created = pc → s.owner = .destroyed → pc ≠ .notCreated →
      pc.counted = false → False := by
    intro pc hpc howner hnot hcounted
    rcases h.past (by rw [howner]; nofun) with hpast | hpast <;> rw [hpc] at hpast
    · exact hnot hpast
    · cases hcounted.symm.trans hpast
  cases hstep with
  | startAgain _ hstarted => exact .inl ⟨rfl, rfl, hstarted⟩
  | failToCreate => exact .inr (.inl ⟨rfl, rfl⟩)
  | joinFails _ hnot => exact .inr (.inr (.inl ⟨rfl, rfl, hnot⟩))
  | crash => exact .inr (.inr (.inr ⟨rfl, rfl⟩))
  | waitFails hpc hx hstep =>
    -- the owner does not count down
    obtain ⟨t, b, rfl, hupdating, -⟩ := h.guarded.of_error hstep
    obtain rfl : t = .caller := hx
    have hwaits := h.waiting hpc
    rw [hupdating] at hwaits
    cases hwaits
  | assertFails hpc hnot =>
    have hcreated : s.created ≠ .notCreated := fun hc => by
      have hbefore := hhandle.created.mp hc
      have hflags := hhandle.flags
      rw [hpc] at hbefore hflags
      cases hstarted : s.started_ <;> rw [hstarted] at hbefore hflags <;> contradiction
    rcases h.past (by rw [hpc]; nofun) with hpast | hpast
    · exact absurd hpast hcreated
    · rw [h.tid_ (.inr hpast)] at hnot
      exact absurd htid hnot
  | pthreadJoinInvalid hpc hid =>
    exact absurd (by rw [hhandle.pthreadId_, hpc]; rfl) hid
  | pthreadDetachInvalid hpc hid =>
    have hflags := hhandle.flags
    rw [hpc] at hflags
    have hboth : s.started_ = true ∧ s.joined_ = false := by simpa [OwnerPc.allows] using hflags
    exact absurd (by rw [hhandle.pthreadId_, hpc, hboth.1, hboth.2]; rfl) hid
  | destroyFails hpc hnot => exact absurd (h.destructible (by rw [hpc]; nofun)) hnot
  | writeTidDestroyed hpc howner => exact (hgone hpc howner nofun rfl).elim
  | countDownDestroyed hpc howner => exact (hgone hpc howner nofun rfl).elim
  | countDownFails hpc _ hx hstep =>
    -- the count is one
    obtain ⟨t, b, rfl, hupdating, hfails⟩ := h.guarded.of_error hstep
    obtain rfl : t = .created := hx
    rcases h.counting hpc with ⟨-, hone⟩ | ⟨hhas, -⟩
    · cases b
      rw [hone] at hfails
      cases hfails
    · rw [hupdating] at hhas
      cases hhas

def Action.creates : Action → Bool
  | create => true
  | _ => false

def Action.releases : Action → Bool
  | pthreadJoin | pthreadDetach => true
  | _ => false

/-- How often the new thread has been created and released. -/
def Pthread.counts : Pthread → ℕ × ℕ
  | none => (0, 0)
  | joinable => (1, 0)
  | joined | detached => (1, 1)

theorem Handle.counts (h : Handle s) {a : Action} (hstep : Step ids emptyName s a (.ok t)) :
    t.pthreadId_.counts = s.pthreadId_.counts +
      ([a].countP Action.creates, [a].countP Action.releases) := by
  cases hstep with
  | create hpc => rw [h.pthreadId_, hpc]; rfl
  | pthreadJoin _ hid | pthreadDetach _ hid => rw [hid]; rfl
  | _ => rfl

theorem counts_of_run {w : List Action} (h : (machine ids emptyName).Run fresh w s) :
    s.pthreadId_.counts = (w.countP Action.creates, w.countP Action.releases) := by
  induction h with
  | nil => rfl
  | snoc hrun hstep ih =>
    have hhandle := (invariant_of_reachable ⟨_, _, rfl, hrun⟩).1
    rw [hhandle.counts hstep, ih, List.countP_append, List.countP_append]
    rfl

/-- **The life of a `Thread`.** In every run of the owner and the new thread, access by access,
with any order of `start`, `join` and the destructor that the owner chooses: only a second
`start`, a failed `pthread_create`, a `join` of what is not started or has been joined and an
exception that leaves `func_` stop the program, so that the new thread never touches a
destroyed `Thread` and no member is destroyed while it is in use. Whenever the owner is not in
`start`, the new thread has left `countDown` and `tid_` is its id. After `pthread_join` it has
deleted its `ThreadData`; a destroyed `Thread` has joined or detached it exactly once.
`t_threadName` points into the `ThreadData` only while `func_` runs. -/
theorem thread_object_life (ids : ThreadIds Party) (emptyName : Bool)
    (htid : 0 < ids.tid .created) {w : List Action}
    (h : (machine ids emptyName).Run fresh w s) :
    (∀ a e, Step ids emptyName s a (.error e) →
      a = .start ∧ e = .assertion ∧ s.started_ = true ∨ a = .failToCreate ∧ e = .sysFatal ∨
        a = .join ∧ e = .assertion ∧ (s.started_ = false ∨ s.joined_ = true) ∨
        a = .crash ∧ e = .aborted) ∧
    (s.created ≠ .notCreated → s.owner ≠ .waiting →
      s.created.counted = true ∧ s.tid_ = ids.tid .created) ∧
    (s.pthreadId_ = .joined → s.created = .ended) ∧
    (s.owner = .destroyed → w.countP Action.creates = w.countP Action.releases) ∧
    (s.t_threadName = .name_ → s.created = .running) := by
  have hreach : (machine ids emptyName).Reachable s := ⟨_, _, rfl, h⟩
  obtain ⟨hhandle, hlatched⟩ := invariant_of_reachable hreach
  refine ⟨fun a e => of_error hhandle hlatched htid, fun hcreated howner => ?_, hhandle.joined,
    fun howner => ?_, hhandle.name⟩
  · have hcounted := (hlatched.past howner).resolve_left hcreated
    exact ⟨hcounted, hlatched.tid_ (.inr hcounted)⟩
  · have hcounts := counts_of_run h
    rw [hhandle.pthreadId_, howner] at hcounts
    cases hstarted : s.started_ <;> cases hjoined : s.joined_ <;>
      rw [hstarted, hjoined] at hcounts <;>
      exact (congrArg Prod.fst hcounts).symm.trans (congrArg Prod.snd hcounts)

/-- The owner destroys the `Thread` while `func_` runs. -/
theorem thread_object_life_detached : ∃ s : ThreadObject, s.owner = .destroyed ∧
    s.created = .running ∧ s.tid_ = 7 ∧ ∃ w : List Action,
      w.countP Action.creates = 1 ∧ w.countP Action.creates = w.countP Action.releases := by
  let ids : ThreadIds Party := {
    tid := fun t => if t = .created then 7 else 8
    injective := fun t u h => by cases t <;> cases u <;> first | rfl | cases h
    ne_zero := by intro t; cases t <;> decide }
  have hrun : (machine ids true).Run fresh
      ([.start, .create, .writeTid] ++
        [.lock .created, .assignHolder .created, .update .created, .notify .created .countDown,
          .unassignHolder .created, .unlock .created].map .countDown ++ [.setThreadName] ++
        [.lock .caller, .assignHolder .caller, .test .caller, .unassignHolder .caller,
          .unlock .caller].map .wait ++ [.assertTid, .destruct, .pthreadDetach, .destroyMembers])
      _ :=
    .cons (.start rfl rfl) <| .cons (.create rfl) <| .cons (.writeTid rfl (by decide)) <|
      .cons (.countDown rfl (by decide) rfl (.lock rfl rfl)) <|
      .cons (.countDown rfl (by decide) rfl (.assignHolder rfl)) <|
      .cons (.countDown rfl (by decide) rfl (.update rfl rfl)) <|
      .cons (.countDown rfl (by decide) rfl (.notify rfl)) <|
      .cons (.countDown rfl (by decide) rfl (.unassignHolder rfl)) <|
      .cons (.countDown rfl (by decide) rfl (.unlock rfl rfl)) <|
      .cons (.setThreadName rfl) <| .cons (.wait rfl rfl (.lock rfl rfl)) <|
      .cons (.wait rfl rfl (.assignHolder rfl)) <| .cons (.wait rfl rfl (.test rfl)) <|
      .cons (.wait rfl rfl (.unassignHolder rfl)) <| .cons (.wait rfl rfl (.unlock rfl rfl)) <|
      .cons (.assertTid rfl (by decide)) <| .cons (.destruct rfl) <|
      .cons (.pthreadDetach rfl rfl) <|
      .single (.destroyMembers rfl ⟨rfl, fun t => by cases t <;> rfl⟩)
  obtain ⟨-, htid, -, hcounts, -⟩ := thread_object_life ids true (by decide) hrun
  exact ⟨_, rfl, rfl, (htid (by decide) (by decide)).2, _, rfl, hcounts rfl⟩

end ThreadObject

end Dxian
