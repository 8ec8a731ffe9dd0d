import Dxian.Base.CountDownLatch

/-!
# The start of a thread

`Thread::start` waits for the latch that the new thread counts down after it has written
`tid_`. The field is written outside of the mutex of the latch.

## Main results

- `latch` — the latch of a `Thread` is a latch with two threads
- `Invariant.step` — where the two threads are, and what they have written
- `no_wakeup_lost` — nobody sleeps on, in `wait` or in `start`
-/

namespace Dxian

open Transition

namespace ThreadStart

/-- The caller of `start` and the thread that it creates. -/
inductive Party
  | caller
  | created
deriving DecidableEq

/-- Where the caller is: outside of `start`, before `pthread_create`, in `latch_.wait()`, or
before `assert(tid_ > 0)`. -/
inductive CallerPc
  | outside
  | creating
  | waiting
  | asserting
deriving DecidableEq

/-- Where the new thread is in `runInThread`: before the write of `tid_`, before
`latch_->countDown()`, or past that. -/
inductive CreatedPc
  | notCreated
  | writing
  | counting
  | running
deriving DecidableEq

inductive Action
  | start
  | create
  | failToCreate
  | wait (x : Monitor.Action Party CountDownLatch.Call)
  | assertTid
  | writeTid
  | countDown

end ThreadStart

/-- `class Thread`: the fields that `start` and `runInThread` use, and where the two threads
are. -/
structure ThreadStart where
  started_ : Bool
  tid_ : ℤ
  latch_ : Monitor.State ThreadStart.Party ℤ
  caller : ThreadStart.CallerPc
  created : ThreadStart.CreatedPc

namespace ThreadStart

/-- The steps of a thread in `CountDownLatch::wait`. -/
def waitSteps (t : Party) : List (Monitor.Action Party CountDownLatch.Call) :=
  [.test t, .wake t, .wakeSpuriously t]

variable (gettid : ℤ)

/-- One step of one of the threads; `gettid` is the id of the new thread. If `pthread_create`
fails, `LOG_SYSFATAL` stops the program. -/
inductive Step (s : ThreadStart) : Action → Except Fault ThreadStart → Prop
  | start (hpc : s.caller = .outside) (hstarted : s.started_ = false) :
      Step s .start (.ok { s with started_ := true, caller := .creating })
  | startAgain (hpc : s.caller = .outside) (hstarted : s.started_ = true) :
      Step s .start (.error .assertion)
  | create (hpc : s.caller = .creating) :
      Step s .create (.ok { s with
        latch_ := s.latch_.move .caller .testing
        caller := .waiting
        created := .writing })
  | failToCreate (hpc : s.caller = .creating) : Step s .failToCreate (.error .sysFatal)
  | wait {x l} (hpc : s.caller = .waiting) (hx : x ∈ waitSteps .caller)
      (hstep : countDownLatch.Step s.latch_ x (.ok l)) :
      Step s (.wait x) (.ok { s with
        latch_ := l
        caller := if l.position .caller = .outside then .asserting else .waiting })
  | assertTid (hpc : s.caller = .asserting) (htid : 0 < s.tid_) :
      Step s .assertTid (.ok { s with caller := .outside })
  | assertFails (hpc : s.caller = .asserting) (htid : ¬ 0 < s.tid_) :
      Step s .assertTid (.error .assertion)
  | writeTid (hpc : s.created = .writing) :
      Step s .writeTid (.ok { s with tid_ := gettid, created := .counting })
  | countDown {l} (hpc : s.created = .counting)
      (hstep : countDownLatch.Step s.latch_ (.update .created .countDown) (.ok l)) :
      Step s .countDown (.ok { s with latch_ := l, created := .running })
  | countDownFails {e} (hpc : s.created = .counting)
      (hstep : countDownLatch.Step s.latch_ (.update .created .countDown) (.error e)) :
      Step s .countDown (.error e)

/-- A `Thread` as constructed. -/
def fresh : ThreadStart where
  started_ := false
  tid_ := 0
  latch_ := ⟨1, fun _ => .outside⟩
  caller := .outside
  created := .notCreated

def machine : System ThreadStart Action Fault where
  init s := s = fresh
  step := Step gettid

variable {gettid} {s t : ThreadStart}

/-! ## The latch -/

section Latch

variable {m l : Monitor.State Party ℤ}

theorem wait_step {x : Monitor.Action Party CountDownLatch.Call} {p : Party}
    (hx : x ∈ waitSteps p) (h : countDownLatch.Step m x (.ok l)) :
    m.position p ≠ .outside ∧ l.value = m.value := by
  have hcases : x = .test p ∨ x = .wake p ∨ x = .wakeSpuriously p := by simpa [waitSteps] using hx
  obtain rfl | rfl | rfl := hcases <;> cases h <;> next hpos => exact ⟨by rw [hpos]; nofun, rfl⟩

theorem countDown_step (h : countDownLatch.Step m (.update .created .countDown) (.ok l)) :
    l.value = m.value - 1 ∧ ∀ p, l.position p = .outside ↔ m.position p = .outside := by
  cases h with
  | update _ hv => exact ⟨(CountDownLatch.countDown_eq_ok hv).1, fun _ => Iff.rfl⟩
  | broadcast _ hv =>
    exact ⟨(CountDownLatch.countDown_eq_ok hv).1, fun _ => Monitor.notify_eq_outside⟩

end Latch

/-! ## Where the threads are -/

/-- The invariant. -/
structure Invariant (gettid : ℤ) (s : ThreadStart) : Prop where
  notStarted : s.started_ = false → s.caller = .outside ∧ s.created = .notCreated
  creating : s.caller = .creating → s.created = .notCreated
  position : s.caller ≠ .waiting ↔ s.latch_.position .caller = .outside
  count : s.created ≠ .running → s.latch_.value = 1
  counted : s.created = .running → s.latch_.value = 0
  tid : s.created = .counting ∨ s.created = .running → s.tid_ = gettid
  passed : s.started_ = true → s.caller = .asserting ∨ s.caller = .outside → s.created = .running

theorem Invariant.fresh : Invariant gettid fresh where
  notStarted _ := ⟨rfl, rfl⟩
  creating := nofun
  position := iff_of_true nofun rfl
  count _ := rfl
  counted := nofun
  tid h := by obtain h | h := h <;> cases h
  passed := nofun

/-- **Step.** -/
theorem Invariant.step (inv : Invariant gettid s) {a : Action} (h : Step gettid s a (.ok t)) :
    Invariant gettid t := by
  cases h with
  | start hpc hstarted =>
    exact { inv with
      notStarted := nofun
      creating := fun _ => (inv.notStarted hstarted).2
      position := iff_of_true nofun (inv.position.mp (by rw [hpc]; nofun))
      passed := fun _ h => by obtain h | h := h <;> cases h }
  | create hpc =>
    have hnew := inv.creating hpc
    exact {
      notStarted := fun hnot => by cases hpc.symm.trans (inv.notStarted hnot).1
      creating := nofun
      position := iff_of_false (fun hne => hne rfl) (by simp)
      count := fun _ => inv.count (by rw [hnew]; nofun)
      counted := nofun
      tid := fun h => by obtain h | h := h <;> cases h
      passed := fun _ h => by obtain h | h := h <;> cases h }
  | @wait x l hpc hx hstep =>
    obtain ⟨hin, hvalue⟩ := wait_step hx hstep
    by_cases hout : l.position .caller = .outside
    · -- the count is not 1 any more
      have hfree := CountDownLatch.not_busy_iff.mp (Monitor.not_busy_of_return hstep hin hout).1
      have hrunning : s.created = .running := by
        by_contra hne
        have hone := inv.count hne
        omega
      rw [if_pos hout]
      exact { inv with
        notStarted := fun hnot => by cases hpc.symm.trans (inv.notStarted hnot).1
        creating := nofun
        position := iff_of_true nofun hout
        count := fun hne => hvalue.trans (inv.count hne)
        counted := fun heq => hvalue.trans (inv.counted heq)
        passed := fun _ _ => hrunning }
    · rw [if_neg hout]
      exact { inv with
        notStarted := fun hnot => by cases hpc.symm.trans (inv.notStarted hnot).1
        creating := nofun
        position := iff_of_false (fun hne => hne rfl) hout
        count := fun hne => hvalue.trans (inv.count hne)
        counted := fun heq => hvalue.trans (inv.counted heq)
        passed := fun _ h => by obtain h | h := h <;> cases h }
  | assertTid hpc htid =>
    exact { inv with
      notStarted := fun hnot => ⟨rfl, (inv.notStarted hnot).2⟩
      creating := nofun
      position := iff_of_true nofun (inv.position.mp (by rw [hpc]; nofun))
      passed := fun hstarted _ => inv.passed hstarted (.inl hpc) }
  | writeTid hpc =>
    have hnew : s.created ≠ .notCreated := by rw [hpc]; nofun
    have hrunning : s.created ≠ .running := by rw [hpc]; nofun
    exact { inv with
      notStarted := fun hnot => absurd (inv.notStarted hnot).2 hnew
      creating := fun h => absurd (inv.creating h) hnew
      count := fun _ => inv.count hrunning
      counted := nofun
      tid := fun _ => rfl
      passed := fun hstarted h => absurd (inv.passed hstarted h) hrunning }
  | @countDown l hpc hstep =>
    obtain ⟨hvalue, hposition⟩ := countDown_step hstep
    have hnew : s.created ≠ .notCreated := by rw [hpc]; nofun
    have hone := inv.count (by rw [hpc]; nofun)
    have hzero : l.value = 0 := by rw [hvalue, hone]; rfl
    exact { inv with
      notStarted := fun hnot => absurd (inv.notStarted hnot).2 hnew
      creating := fun h => absurd (inv.creating h) hnew
      position := inv.position.trans (hposition _).symm
      count := fun hne => absurd rfl hne
      counted := fun _ => hzero
      tid := fun _ => inv.tid (.inl hpc)
      passed := fun _ _ => rfl }

theorem Invariant.of_reachable (h : (machine gettid).Reachable s) : Invariant gettid s := by
  refine h.invariant (fun {s} hinit => ?_) fun inv hstep => inv.step hstep
  rw [show s = ThreadStart.fresh from hinit]
  exact .fresh

/-- The latch of a `Thread` is a latch with two threads. -/
def latch (gettid : ℤ) : Projection (machine gettid) (countDownLatch.machine Party) where
  state := latch_
  label
    | .create => [.call .caller]
    | .wait x => [x]
    | .countDown => [.update .created .countDown]
    | _ => []
  init {s} h := by
    rw [show s = ThreadStart.fresh from h]
    exact .of_init ⟨show CInt.InRange 1 by decide, fun _ => rfl⟩
  step h hstep := by
    have inv := Invariant.of_reachable h
    cases hstep with
    | create hpc => exact .single (.call (inv.position.mp (by rw [hpc]; nofun)))
    | wait _ _ hstep => exact .single hstep
    | countDown _ hstep => exact .single hstep
    | start | assertTid | writeTid => exact .nil

/-- Steps of the caller in `wait` are steps of `start`, up to the last one. -/
theorem wait_run (gettid : ℤ) {w : List (Monitor.Action Party CountDownLatch.Call)}
    {l : Monitor.State Party ℤ} (hrun : (countDownLatch.machine Party).Run s.latch_ w l)
    (hw : ∀ x ∈ w, x ∈ waitSteps .caller) (hwaiting : s.caller = .waiting)
    (hin : s.latch_.position .caller ≠ .outside) :
    ∃ t, (machine gettid).Run s (w.map .wait) t ∧ t.latch_ = l ∧
      t.caller = if l.position .caller = .outside then .asserting else .waiting := by
  induction hrun with
  | nil => exact ⟨s, .nil, rfl, by rw [hwaiting, if_neg hin]⟩
  | @snoc w m l x hrun hstep ih =>
    obtain ⟨t, ht, hlatch, hcaller⟩ := ih fun y hy => hw y (List.mem_append_left _ hy)
    have hx := hw x (List.mem_append_right _ (List.mem_singleton_self x))
    rw [if_neg (wait_step hx hstep).1] at hcaller
    rw [← hlatch] at hstep
    rw [List.map_append]
    exact ⟨_, ht.snoc (.wait hcaller hx hstep), rfl, rfl⟩

/-- The caller can leave `wait` by its own steps, without a spurious wakeup. -/
def CanLeave (gettid : ℤ) (s : ThreadStart) : Prop :=
  ∃ (w : List (Monitor.Action Party CountDownLatch.Call)) (t : ThreadStart),
    (∀ x ∈ w, x = .wake .caller ∨ x = .test .caller) ∧
      (machine gettid).Run s (w.map .wait) t ∧ t.caller = .asserting

theorem canLeave (h : (machine gettid).Reachable s)
    (hfree : countDownLatch.busy s.latch_.value = false) (hwaiting : s.caller = .waiting) :
    CanLeave gettid s := by
  have hin : s.latch_.position .caller ≠ .outside := by
    intro hout
    exact (Invariant.of_reachable h).position.mpr hout hwaiting
  have hlatch := (latch gettid).reachable h
  obtain ⟨w, l, hw, hrun, hout⟩ :=
    CountDownLatch.announces.exists_return hlatch hfree .caller hin
  have hsteps : ∀ x ∈ w, x ∈ waitSteps .caller := by
    intro x hx
    obtain rfl | rfl := hw x hx <;> simp [waitSteps]
  obtain ⟨t, ht, -, hcaller⟩ := wait_run gettid hrun hsteps hwaiting hin
  exact ⟨w, t, hw, ht, by rw [hcaller, if_pos hout]⟩

/-- **No lost wakeup.** For any initial count and any threads, in every reachable state of a
latch: a thread leaves `wait` only while `count_` is not positive, and then every thread that
is asleep has been notified. For `Thread::start`: it returns after the new thread has written
`tid_`, its assert holds, and once the new thread has counted down, the caller is not asleep
without a notification and can leave `wait` by its own steps. -/
theorem no_wakeup_lost (T : Type) [DecidableEq T] (gettid : ℤ) :
    (∀ s : Monitor.State T ℤ, (countDownLatch.machine T).Reachable s →
      (∀ a s' t, countDownLatch.Step s a (.ok s') → s.position t ≠ .outside →
        s'.position t = .outside → s.value ≤ 0) ∧
      (s.value ≤ 0 → ∀ t, s.position t ≠ .sleeping false)) ∧
    ∀ s, (machine gettid).Reachable s →
      (∀ t, Step gettid s .assertTid (.ok t) → s.created = .running ∧ s.tid_ = gettid) ∧
      (0 < gettid → ∀ e, ¬ Step gettid s .assertTid (.error e)) ∧
      (s.created = .running → s.caller = .waiting →
        s.latch_.position .caller ≠ .sleeping false ∧ CanLeave gettid s) := by
  refine ⟨fun s h => ⟨fun a s' t hstep hin hout => ?_, fun hcount t => ?_⟩, fun s h => ?_⟩
  · exact CountDownLatch.not_busy_iff.mp (Monitor.not_busy_of_return hstep hin hout).1
  · exact CountDownLatch.announces.no_lost_wakeup h (CountDownLatch.not_busy_iff.mpr hcount) t
  · have inv := Invariant.of_reachable h
    have hasserting : s.caller = .asserting → s.created = .running ∧ s.tid_ = gettid := by
      intro hpc
      have hstarted : s.started_ = true := by
        by_contra hnot
        cases hpc.symm.trans (inv.notStarted (Bool.not_eq_true _ |>.mp hnot)).1
      have hrunning := inv.passed hstarted (.inl hpc)
      exact ⟨hrunning, inv.tid (.inr hrunning)⟩
    refine ⟨fun t hstep => ?_, fun hpos e hstep => ?_, fun hrunning hwaiting => ?_⟩
    · cases hstep with
      | assertTid hpc _ => exact hasserting hpc
    · cases hstep with
      | assertFails hpc htid =>
        rw [(hasserting hpc).2] at htid
        exact htid hpos
    · have hfree : countDownLatch.busy s.latch_.value = false :=
        CountDownLatch.not_busy_iff.mpr (Int.le_of_eq (inv.counted hrunning))
      have hawake := CountDownLatch.announces.no_lost_wakeup ((latch gettid).reachable h) hfree
      exact ⟨hawake .caller, canLeave h hfree hwaiting⟩

/-- One thread is asleep when another counts down to zero, and likewise in `start`. -/
theorem no_wakeup_lost_sleeping :
    (∃ s : Monitor.State Bool ℤ, (countDownLatch.machine Bool).Reachable s ∧ s.value ≤ 0 ∧
      s.position true = .sleeping true ∧ ∀ t, s.position t ≠ .sleeping false) ∧
    ∃ s, (machine 7).Reachable s ∧ s.created = .running ∧ s.caller = .waiting ∧
      s.latch_.position .caller ≠ .sleeping false ∧ CanLeave 7 s := by
  constructor
  · have hinit : (countDownLatch.machine Bool).init ⟨1, fun _ => .outside⟩ :=
      ⟨show CInt.InRange 1 by decide, fun _ => rfl⟩
    have hreach : (countDownLatch.machine Bool).Reachable _ := (((System.Reachable.of_init
      hinit).step (.call (t := true) rfl)).step (.sleep (t := true) rfl rfl)).step
        (.broadcast (t := false) (a := .countDown) rfl rfl)
    exact ⟨_, hreach, by decide, rfl,
      ((no_wakeup_lost Bool 7).1 _ hreach).2 (by decide)⟩
  · have hreach : (machine 7).Reachable _ := (((((System.Reachable.of_init (M := machine 7)
      (s := fresh) rfl).step (.start rfl rfl)).step (.create rfl)).step
        (.wait rfl (x := .test .caller) (by simp [waitSteps]) (.sleep rfl rfl))).step
        (.writeTid rfl)).step (.countDown rfl (.broadcast rfl rfl))
    obtain ⟨hawake, hleave⟩ := ((no_wakeup_lost Bool 7).2 _ hreach).2.2 rfl rfl
    exact ⟨_, hreach, rfl, rfl, hawake, hleave⟩

end ThreadStart

end Dxian
