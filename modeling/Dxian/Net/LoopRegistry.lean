import Dxian.Base.CurrentThread

/-!
# One loop per thread

The constructor of an `EventLoop` notes the id of its thread in `threadId_` and the loop in
`t_loopInThisThread`. `isInLoopThread` compares ids, and the kernel gives the id of a thread
that has exited to another one; `getEventLoopOfCurrentThread` reads the thread-local pointer,
which `fork` copies. A program keeps the two in step when its threads destroy their loops
before they exit, and its processes fork without loops.

## Main results

- `Invariant.construct`, `Invariant.destruct` — a live loop belongs to one running thread of
  its process
- `one_loop_per_thread` — what the ids and the pointers of the threads say
-/

namespace Dxian

open Transition CurrentThread

/-- The threads, the loop that each of them has noted, and in the memory of each process the
live loops with the ids that they have noted. -/
structure LoopRegistry (T P L : Type) where
  threads : Threads T P
  t_loopInThisThread : T → Option L
  threadId_ : P → L → Option ℤ

namespace LoopRegistry

inductive Action (T P L : Type)
  | thread (x : CurrentThread.Action T P)
  | construct (t : T) (l : L)
  | destruct (t : T) (l : L)

variable {T P L : Type} [DecidableEq T] [DecidableEq P] [DecidableEq L]

/-- `EventLoop::isInLoopThread`, called by `t`. -/
def isInLoopThread (s : LoopRegistry T P L) (t : T) (gettid : ℤ) (l : L) : Bool :=
  s.threadId_ (s.threads.process t) l == some (tid gettid (s.threads.locals t)).1

/-- The threads after a call of `tid`. -/
def withTid (s : LoopRegistry T P L) (t : T) (gettid : ℤ) : Threads T P :=
  { s.threads with
    locals := Function.update s.threads.locals t (tid gettid (s.threads.locals t)).2 }

/-- The live loops of the process of `t` after a change of one. -/
def setThreadId (s : LoopRegistry T P L) (t : T) (l : L) (i : Option ℤ) : P → L → Option ℤ :=
  Function.update s.threadId_ (s.threads.process t)
    (Function.update (s.threadId_ (s.threads.process t)) l i)

/-- `EventLoop::EventLoop`; the end of a `LOG_FATAL` is an `abort`. -/
def construct (s : LoopRegistry T P L) (t : T) (gettid : ℤ) (l : L) :
    Except Fault (LoopRegistry T P L) :=
  if (s.t_loopInThisThread t).isSome then .error .sysFatal
  else .ok {
    threads := s.withTid t gettid
    t_loopInThisThread := Function.update s.t_loopInThisThread t (some l)
    threadId_ := s.setThreadId t l (some (tid gettid (s.threads.locals t)).1) }

/-- `EventLoop::~EventLoop`. Its first operation on a channel calls `assertInLoopThread`. -/
def destruct (s : LoopRegistry T P L) (t : T) (gettid : ℤ) (l : L) :
    Except Fault (LoopRegistry T P L) :=
  if !s.isInLoopThread t gettid l then .error .sysFatal
  else .ok {
    threads := s.withTid t gettid
    t_loopInThisThread := Function.update s.t_loopInThisThread t none
    threadId_ := s.setThreadId t l none }

/-- What becomes of the variables when threads are created and processes forked. -/
def inherit (s : LoopRegistry T P L) (threads : Threads T P) :
    CurrentThread.Action T P → LoopRegistry T P L
  | .create _ u _ =>
    { s with threads, t_loopInThisThread := Function.update s.t_loopInThisThread u none }
  | .fork t u p _ =>
    { threads
      t_loopInThisThread := Function.update s.t_loopInThisThread u (s.t_loopInThisThread t)
      threadId_ := Function.update s.threadId_ p (s.threadId_ (s.threads.process t)) }
  | .exit _ | .tid _ => { s with threads }

/-- The loops of a process are constructed and destroyed by its threads, in any order. -/
inductive Step (s : LoopRegistry T P L) :
    Action T P L → Except Fault (LoopRegistry T P L) → Prop
  | thread {x th} (h : CurrentThread.Step s.threads x (.ok th)) :
      Step s (.thread x) (.ok (s.inherit th x))
  | construct {t l i r} (ht : s.threads.status t = .running i)
      (hl : s.threadId_ (s.threads.process t) l = none) (hr : s.construct t i l = r) :
      Step s (.construct t l) r
  | destruct {t l i r} (ht : s.threads.status t = .running i)
      (hl : s.threadId_ (s.threads.process t) l ≠ none) (hr : s.destruct t i l = r) :
      Step s (.destruct t l) r

/-- A process with one thread and no loop. -/
def machine (T P L : Type) [DecidableEq T] [DecidableEq P] [DecidableEq L] :
    System (LoopRegistry T P L) (Action T P L) Fault where
  init s := (CurrentThread.machine T P).init s.threads ∧
    s.t_loopInThisThread = (fun _ => none) ∧ s.threadId_ = fun _ _ => none
  step := Step

/-- A thread exits without a loop, and a process without live loops forks. -/
def Orderly (s : LoopRegistry T P L) : Action T P L → Prop
  | .thread (.exit t) => s.t_loopInThisThread t = none
  | .thread (.fork t _ _ _) => ∀ l, s.threadId_ (s.threads.process t) l = none
  | _ => True

/-- A program that keeps to this. -/
def orderly (T P L : Type) [DecidableEq T] [DecidableEq P] [DecidableEq L] :
    System (LoopRegistry T P L) (Action T P L) Fault :=
  { machine T P L with step := fun s x r => Step s x r ∧ s.Orderly x }

/-- The threads of the program; every constructor and destructor asks for the id. -/
def threadProjection : Projection (orderly T P L) (CurrentThread.machine T P) where
  state := LoopRegistry.threads
  label
    | .thread x => [x]
    | .construct t _ | .destruct t _ => [.tid t]
  init h := .of_init h.1
  step {s x s'} _ hstep := by
    cases hstep.1 with
    | @thread x th h => cases x <;> exact .single h
    | construct ht hl hr =>
      rw [construct] at hr
      split at hr
      · cases hr
      · cases hr
        exact .single (.tid ht)
    | destruct ht hl hr =>
      rw [destruct] at hr
      split at hr
      · cases hr
      · cases hr
        exact .single (.tid ht)

/-- The loop of a running thread is live and has noted the thread; a live loop belongs to a
running thread of its process. -/
structure Invariant (s : LoopRegistry T P L) : Prop where
  threads : s.threads.Invariant
  own : ∀ {t i l}, s.threads.status t = .running i → s.t_loopInThisThread t = some l →
    s.threadId_ (s.threads.process t) l = some i
  live : ∀ {p l i}, s.threadId_ p l = some i →
    ∃ t, s.threads.status t = .running i ∧ s.threads.process t = p ∧
      s.t_loopInThisThread t = some l

variable {s s' : LoopRegistry T P L}

omit [DecidableEq T] [DecidableEq P] [DecidableEq L] in
theorem isInLoopThread_eq (inv : s.threads.Invariant) {t : T} {i : ℤ}
    (ht : s.threads.status t = .running i) (l : L) :
    s.isInLoopThread t i l = true ↔ s.threadId_ (s.threads.process t) l = some i := by
  obtain ⟨hpos, hlt⟩ := inv.range ht
  rw [isInLoopThread, (inv.cached ht).tid_eq hpos hlt, beq_iff_eq]

omit [DecidableEq T] [DecidableEq P] [DecidableEq L] in
/-- The ids and the pointers agree. -/
theorem Invariant.isInLoopThread_iff (inv : Invariant s) {t : T} {i : ℤ}
    (ht : s.threads.status t = .running i) (l : L) :
    s.isInLoopThread t i l = true ↔ s.t_loopInThisThread t = some l := by
  rw [isInLoopThread_eq inv.threads ht]
  constructor
  · intro hl
    obtain ⟨u, hu, -, hloop⟩ := inv.live hl
    rwa [inv.threads.distinct ht hu]
  · exact inv.own ht

omit [DecidableEq T] in
theorem setThreadId_of_ne {t : T} {l l' : L} {p : P} {i : Option ℤ}
    (h : ¬ (p = s.threads.process t ∧ l' = l)) : s.setThreadId t l i p l' = s.threadId_ p l' := by
  rw [setThreadId]
  by_cases hp : p = s.threads.process t
  · rw [hp, Function.update_self, Function.update_of_ne fun hl => h ⟨hp, hl⟩]
  · rw [Function.update_of_ne hp]

omit [DecidableEq T] in
theorem setThreadId_self {t : T} {l : L} {i : Option ℤ} :
    s.setThreadId t l i (s.threads.process t) l = i := by
  rw [setThreadId, Function.update_self, Function.update_self]

omit [DecidableEq P] [DecidableEq L] in
/-- A thread that starts without a loop, in a process whose loops are as before. -/
theorem Invariant.start (inv : Invariant s) {u : T} {p : P} {i : ℤ} {locals : Locals}
    {threadId_ : P → L → Option ℤ} (hthreads : (s.threads.start u p i locals).Invariant)
    (hu : s.threads.status u = .notStarted) (hsame : threadId_ = s.threadId_) :
    Invariant ⟨s.threads.start u p i locals, Function.update s.t_loopInThisThread u none,
      threadId_⟩ where
  threads := hthreads
  own {t j l} ht hloop := by
    dsimp only at hloop
    have htu : t ≠ u := by
      rintro rfl
      rw [Function.update_self] at hloop
      cases hloop
    rw [Function.update_of_ne htu] at hloop
    rcases Threads.running_start.mp ht with ⟨rfl, -⟩ | ⟨-, ht⟩
    · exact absurd rfl htu
    · show threadId_ (Function.update s.threads.process u p t) l = some j
      rw [Function.update_of_ne htu, hsame]
      exact inv.own ht hloop
  live {q l j} hl := by
    replace hl : threadId_ q l = some j := hl
    rw [hsame] at hl
    obtain ⟨t, ht, hp, hloop⟩ := inv.live hl
    have htu : t ≠ u := by
      rintro rfl
      cases hu.symm.trans ht
    refine ⟨t, Threads.running_start.mpr (.inr ⟨htu, ht⟩), ?_, ?_⟩
    · exact (Function.update_of_ne htu ..).trans hp
    · exact (Function.update_of_ne htu ..).trans hloop

omit [DecidableEq L] in
/-- **Step lemma** for the threads. -/
theorem Invariant.thread (inv : Invariant s) {x : CurrentThread.Action T P} {th : Threads T P}
    (h : CurrentThread.Step s.threads x (.ok th)) (hx : s.Orderly (.thread x)) :
    (s.inherit th x).Invariant := by
  have hthreads := inv.threads.step h
  cases h with
  | create ht hu hi => exact inv.start hthreads hu rfl
  | @fork t u p i j ht hu hi hp =>
    -- nothing is inherited: the process has no live loop, hence the thread has none
    have hnone : s.t_loopInThisThread t = none := by
      cases hloop : s.t_loopInThisThread t with
      | none => rfl
      | some l => cases (hx l).symm.trans (inv.own ht hloop)
    have hempty : s.threadId_ p = fun _ => none := by
      funext l
      cases hl : s.threadId_ p l with
      | none => rfl
      | some k =>
        obtain ⟨v, hv, hvp, -⟩ := inv.live hl
        exact absurd hvp (hp v (by rw [hv]; nofun))
    have hsame : Function.update s.threadId_ p (s.threadId_ (s.threads.process t)) =
        s.threadId_ := by
      rw [Function.update_eq_self_iff, hempty]
      exact funext hx
    rw [inherit, hnone]
    exact inv.start hthreads hu hsame
  | @exit t i ht =>
    replace hx : s.t_loopInThisThread t = none := hx
    refine ⟨hthreads, fun {u j l} hu hloop => ?_, fun {p l j} hl => ?_⟩
    · have hut : u ≠ t := by
        rintro rfl
        cases hx.symm.trans hloop
      exact inv.own ((Function.update_of_ne hut ..).symm.trans hu) hloop
    · obtain ⟨u, hu, hp, hloop⟩ := inv.live hl
      have hut : u ≠ t := by
        rintro rfl
        cases hx.symm.trans hloop
      exact ⟨u, (Function.update_of_ne hut ..).trans hu, hp, hloop⟩
  | tid ht => exact ⟨hthreads, inv.own, inv.live⟩

/-- **Step lemma** for the constructor. -/
theorem Invariant.construct (inv : Invariant s) {t : T} {i : ℤ} {l : L}
    (ht : s.threads.status t = .running i) (hl : s.threadId_ (s.threads.process t) l = none)
    (h : s.construct t i l = .ok s') : s'.Invariant := by
  obtain ⟨hpos, hlt⟩ := inv.threads.range ht
  rw [LoopRegistry.construct, (inv.threads.cached ht).tid_eq hpos hlt] at h
  split at h
  · cases h
  next hnone =>
  rw [Bool.not_eq_true, Option.isSome_eq_false_iff, Option.isNone_iff_eq_none] at hnone
  cases h
  refine ⟨inv.threads.step (.tid ht), fun {u j l'} hu hloop => ?_, fun {p l' j} hl' => ?_⟩
  · dsimp only at hloop
    by_cases hut : u = t
    · subst hut
      cases ht.symm.trans hu
      rw [Function.update_self] at hloop
      cases hloop
      exact setThreadId_self (s := s) (t := u) (l := l)
    · rw [Function.update_of_ne hut] at hloop
      have hown := inv.own hu hloop
      have hne : ¬ (s.threads.process u = s.threads.process t ∧ l' = l) := by
        rintro ⟨hp, rfl⟩
        rw [hp, hl] at hown
        cases hown
      exact (setThreadId_of_ne hne).trans hown
  · by_cases heq : p = s.threads.process t ∧ l' = l
    · obtain ⟨rfl, rfl⟩ := heq
      cases setThreadId_self.symm.trans hl'
      exact ⟨t, ht, rfl, Function.update_self ..⟩
    · obtain ⟨u, hu, hp, hloop⟩ := inv.live ((setThreadId_of_ne heq).symm.trans hl')
      have hut : u ≠ t := by
        rintro rfl
        cases hnone.symm.trans hloop
      exact ⟨u, hu, hp, (Function.update_of_ne hut ..).trans hloop⟩

/-- **Step lemma** for the destructor. -/
theorem Invariant.destruct (inv : Invariant s) {t : T} {i : ℤ} {l : L}
    (ht : s.threads.status t = .running i) (h : s.destruct t i l = .ok s') : s'.Invariant := by
  rw [LoopRegistry.destruct] at h
  split at h
  · cases h
  next hin =>
  rw [Bool.not_eq_true, Bool.not_eq_false'] at hin
  have hnote := (isInLoopThread_eq inv.threads ht l).mp hin
  have hnoted := (inv.isInLoopThread_iff ht l).mp hin
  cases h
  refine ⟨inv.threads.step (.tid ht), fun {u j l'} hu hloop => ?_, fun {p l' j} hl' => ?_⟩
  · dsimp only at hloop
    have hut : u ≠ t := by
      rintro rfl
      rw [Function.update_self] at hloop
      cases hloop
    rw [Function.update_of_ne hut] at hloop
    have hown := inv.own hu hloop
    have hne : ¬ (s.threads.process u = s.threads.process t ∧ l' = l) := by
      rintro ⟨hp, rfl⟩
      rw [hp, hnote] at hown
      cases hown
      exact hut (inv.threads.distinct hu ht)
    exact (setThreadId_of_ne hne).trans hown
  · have hne : ¬ (p = s.threads.process t ∧ l' = l) := by
      rintro ⟨rfl, rfl⟩
      cases setThreadId_self.symm.trans hl'
    obtain ⟨u, hu, hp, hloop⟩ := inv.live ((setThreadId_of_ne hne).symm.trans hl')
    have hut : u ≠ t := by
      rintro rfl
      exact hne ⟨hp.symm, Option.some.inj (hloop.symm.trans hnoted)⟩
    exact ⟨u, hu, hp, (Function.update_of_ne hut ..).trans hloop⟩

/-- **Run lemma.** -/
theorem reachable_invariant (h : (orderly T P L).Reachable s) : s.Invariant := by
  have hthreads := Threads.reachable_invariant (threadProjection.reachable h)
  refine h.invariant ?_ ?_
  · rintro s ⟨hinit, hnoted, hnone⟩
    refine ⟨Threads.reachable_invariant (.of_init hinit), fun _ hloop => ?_, fun hl => ?_⟩
    · rw [hnoted] at hloop
      cases hloop
    · rw [hnone] at hl
      cases hl
  · rintro s x s' inv ⟨hstep, hx⟩
    cases hstep with
    | thread h => exact inv.thread h hx
    | construct ht hl hr => exact inv.construct ht hl hr
    | destruct ht hl hr => exact inv.destruct ht hr

/-- **One loop per thread.** In every run of a program whose threads exit without a loop and
whose processes fork without one, and whatever ids of exited threads the kernel gives again:
`isInLoopThread` holds for a thread exactly when `getEventLoopOfCurrentThread` is the loop;
every live loop is the one of a running thread of its process, and the loop of a running
thread is live. A constructor that gets its file descriptors stops the program exactly when the
thread has a loop already, a destructor exactly when the loop is not the one of the thread. -/
theorem one_loop_per_thread {s₀ s : LoopRegistry T P L} {w : List (Action T P L)}
    (hinit : (orderly T P L).init s₀) (h : (orderly T P L).Run s₀ w s) :
    (∀ t i l, s.threads.status t = .running i →
      (s.isInLoopThread t i l = true ↔ s.t_loopInThisThread t = some l) ∧
      (s.t_loopInThisThread t = some l → s.threadId_ (s.threads.process t) l = some i)) ∧
    (∀ p l i, s.threadId_ p l = some i → ∃! t, s.threads.status t = .running i ∧
      s.threads.process t = p ∧ s.t_loopInThisThread t = some l) ∧
    ∀ t i l e, s.threads.status t = .running i →
      (Step s (.construct t l) (.error e) ↔ e = .sysFatal ∧
        s.threadId_ (s.threads.process t) l = none ∧ s.t_loopInThisThread t ≠ none) ∧
      (Step s (.destruct t l) (.error e) ↔ e = .sysFatal ∧
        s.threadId_ (s.threads.process t) l ≠ none ∧ s.t_loopInThisThread t ≠ some l) := by
  have inv := reachable_invariant ((System.Reachable.of_init hinit).run h)
  refine ⟨fun t i l ht => ⟨inv.isInLoopThread_iff ht l, inv.own ht⟩, fun p l i hl => ?_,
    fun t i l e ht => ⟨?_, ?_⟩⟩
  · obtain ⟨t, ht, hp, hloop⟩ := inv.live hl
    exact ⟨t, ⟨ht, hp, hloop⟩, fun u hu => inv.threads.distinct hu.1 ht⟩
  · have hfault : s.construct t i l = .error e ↔ e = .sysFatal ∧ s.t_loopInThisThread t ≠ none := by
      rw [LoopRegistry.construct, ← Option.isSome_iff_ne_none]
      split
      · next hsome => exact ⟨fun heq => ⟨(Except.error.inj heq).symm, hsome⟩, fun h => by rw [h.1]⟩
      · next hnone => exact ⟨nofun, fun h => absurd h.2 hnone⟩
    constructor
    · intro hstep
      cases hstep with
      | construct ht' hl hr =>
        cases ht.symm.trans ht'
        obtain ⟨he, hne⟩ := hfault.mp hr
        exact ⟨he, hl, hne⟩
    · rintro ⟨he, hl, hne⟩
      exact .construct ht hl (hfault.mpr ⟨he, hne⟩)
  · have hfault : s.destruct t i l = .error e ↔
        e = .sysFatal ∧ s.t_loopInThisThread t ≠ some l := by
      rw [LoopRegistry.destruct, ne_eq, ← inv.isInLoopThread_iff ht, Bool.not_eq_true,
        ← Bool.not_eq_true']
      split
      · next hnot => exact ⟨fun heq => ⟨(Except.error.inj heq).symm, hnot⟩, fun h => by rw [h.1]⟩
      · next hin => exact ⟨nofun, fun h => absurd h.2 hin⟩
    constructor
    · intro hstep
      cases hstep with
      | destruct ht' hl hr =>
        cases ht.symm.trans ht'
        obtain ⟨he, hne⟩ := hfault.mp hr
        exact ⟨he, hl, hne⟩
    · rintro ⟨he, hl, hne⟩
      exact .destruct ht hl (hfault.mpr ⟨he, hne⟩)

/-- The process of the witness, with one of three threads started. -/
def started : LoopRegistry (Fin 3) Unit Bool where
  threads := ⟨Function.update (fun _ => .notStarted) 0 (.running 100), fun _ => (),
    fun _ => (tid 100 .initial).2⟩
  t_loopInThisThread _ := none
  threadId_ _ _ := none

/-- The third thread gets the id of the second one, which has destroyed its loop. -/
theorem one_loop_per_thread_same_id : ∃ s, (orderly (Fin 3) Unit Bool).Run started
    [.construct 0 false, .thread (.create 0 1 101), .construct 1 true, .destruct 1 true,
      .thread (.exit 1), .thread (.create 0 2 101), .construct 2 true] s ∧
    s.isInLoopThread 2 101 true = true ∧ s.isInLoopThread 2 101 false = false := by
  have hinit : (orderly (Fin 3) Unit Bool).init started :=
    ⟨⟨0, 100, by decide, by decide, rfl, rfl⟩, rfl, rfl⟩
  have hrun : (orderly (Fin 3) Unit Bool).Run started
      [.construct 0 false, .thread (.create 0 1 101), .construct 1 true, .destruct 1 true,
        .thread (.exit 1), .thread (.create 0 2 101), .construct 2 true] _ :=
    .cons ⟨.construct (i := 100) rfl rfl rfl, trivial⟩ <|
    .cons ⟨.thread (.create (j := 100) rfl rfl ⟨by decide, by decide, by decide⟩), trivial⟩ <|
    .cons ⟨.construct (i := 101) rfl rfl rfl, trivial⟩ <|
    .cons ⟨.destruct (i := 101) rfl nofun rfl, trivial⟩ <|
    .cons ⟨.thread (.exit (i := 101) rfl), rfl⟩ <|
    .cons ⟨.thread (.create (j := 100) rfl rfl ⟨by decide, by decide, by decide⟩), trivial⟩ <|
    .single ⟨.construct (i := 101) rfl rfl rfl, trivial⟩
  have hiff := (one_loop_per_thread hinit hrun).1 2 101
  refine ⟨_, hrun, (hiff true rfl).1.mpr rfl, ?_⟩
  rw [← Bool.not_eq_true, (hiff false rfl).1]
  nofun

end LoopRegistry

end Dxian
