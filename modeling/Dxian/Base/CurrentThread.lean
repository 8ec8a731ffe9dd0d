import Dxian.Base.Logging.Format
import Dxian.Base.Logging.LogTime

/-!
# The ids of the threads

`CurrentThread::tid` asks the kernel once per thread and keeps the answer in thread-local
variables, together with the text that every log record begins with. A process made by
`fork` starts with a copy of these variables; `afterFork` drops it.

## Main results

- `Threads.Invariant` — the cache of a running thread is empty or its own
- `tid_of_reachable` — `tid` answers what the kernel would
-/

namespace Dxian

open Transition

namespace CurrentThread

/-- The thread-local variables, but for the name of the thread. -/
structure Locals where
  t_cachedTid : ℤ
  t_tidString : List UInt8
  t_tidStringLength : ℕ

/-- The variables of a new thread. -/
def Locals.initial : Locals := ⟨0, [], 6⟩

/-- `"%5d "`. -/
def tidText (tid : ℤ) : List UInt8 := LogTime.blankPadded 5 tid ++ bytes " "

/-- `CurrentThread::cacheTid`. -/
def cacheTid (gettid : ℤ) (l : Locals) : Locals :=
  if l.t_cachedTid = 0 then
    ⟨gettid, snprintf 32 (tidText gettid), (tidText gettid).length⟩
  else l

/-- `CurrentThread::tid`. -/
def tid (gettid : ℤ) (l : Locals) : ℤ × Locals :=
  let l := if l.t_cachedTid = 0 then cacheTid gettid l else l
  (l.t_cachedTid, l)

/-- `afterFork`, in the thread of the new process. -/
def afterFork (gettid : ℤ) (l : Locals) : Locals := (tid gettid { l with t_cachedTid := 0 }).2

/-- What a `Logger` streams of the thread: `tid()`, and `T(tidString(), tidStringLength())`
with its `assert`. -/
def streamTid (gettid : ℤ) (l : Locals) : Except Fault (List UInt8) := do
  let l := (tid gettid l).2
  check (l.t_tidString.length == l.t_tidStringLength)
  pure l.t_tidString

/-- A running thread has an id, which others may get when it has exited. -/
inductive Status
  | notStarted
  | running (tid : ℤ)
  | exited (tid : ℤ)
deriving DecidableEq

/-- The threads of all processes. -/
structure Threads (T P : Type) where
  status : T → Status
  process : T → P
  locals : T → Locals

inductive Action (T P : Type)
  | create (t u : T) (gettid : ℤ)
  | fork (t u : T) (p : P) (gettid : ℤ)
  | exit (t : T)
  | tid (t : T)

variable {T P : Type} [DecidableEq T]

/-- An id that the kernel may give to a new thread: a positive `int` that no running thread
has. -/
def Threads.Fresh (s : Threads T P) (i : ℤ) : Prop :=
  0 < i ∧ i < 2 ^ 31 ∧ ∀ t, s.status t ≠ .running i

/-- A new thread. -/
def Threads.start (s : Threads T P) (u : T) (p : P) (i : ℤ) (l : Locals) : Threads T P where
  status := Function.update s.status u (.running i)
  process := Function.update s.process u p
  locals := Function.update s.locals u l

theorem Threads.running_start {s : Threads T P} {t u : T} {p : P} {i j : ℤ} {l : Locals} :
    (s.start u p i l).status t = .running j ↔ t = u ∧ j = i ∨ t ≠ u ∧ s.status t = .running j := by
  rw [Threads.start]
  by_cases htu : t = u
  · subst htu
    simp [eq_comm]
  · simp [htu]

/-- `t` creates the thread `u`, in its own process or, by `fork`, in a new one; or it exits, or
it asks for its id. -/
inductive Step (s : Threads T P) : Action T P → Except Fault (Threads T P) → Prop
  | create {t u i j} (ht : s.status t = .running j) (hu : s.status u = .notStarted)
      (hi : s.Fresh i) : Step s (.create t u i) (.ok (s.start u (s.process t) i .initial))
  | fork {t u p i j} (ht : s.status t = .running j) (hu : s.status u = .notStarted)
      (hi : s.Fresh i) (hp : ∀ v, s.status v ≠ .notStarted → s.process v ≠ p) :
      Step s (.fork t u p i) (.ok (s.start u p i (afterFork i (s.locals t))))
  | exit {t i} (ht : s.status t = .running i) :
      Step s (.exit t) (.ok { s with status := Function.update s.status t (.exited i) })
  | tid {t i} (ht : s.status t = .running i) :
      Step s (.tid t)
        (.ok { s with locals := Function.update s.locals t (CurrentThread.tid i (s.locals t)).2 })

/-- A process with one thread, in which `ThreadNameInitializer` has called `tid`. -/
def machine (T P : Type) [DecidableEq T] : System (Threads T P) (Action T P) Fault where
  init s := ∃ t i, 0 < i ∧ i < 2 ^ 31 ∧
    s.status = Function.update (fun _ => .notStarted) t (.running i) ∧
    s.locals t = (tid i .initial).2
  step := Step

/-! ## The cache -/

theorem tidText_length {i : ℤ} (hpos : 0 < i) (hlt : i < 2 ^ 31) : (tidText i).length ≤ 11 := by
  have hle : (decimal i).length ≤ 10 :=
    (LogTime.length_decimal_le_iff (by decide) hpos.le).mpr (by omega)
  rw [tidText, LogTime.blankPadded, List.length_append, List.length_append, List.length_replicate]
  show 5 - (decimal i).length + (decimal i).length + 1 ≤ 11
  omega

/-- The variables after the first `tid` of a thread. -/
theorem cacheTid_empty {i : ℤ} (hpos : 0 < i) (hlt : i < 2 ^ 31) {l : Locals}
    (hl : l.t_cachedTid = 0) : cacheTid i l = ⟨i, tidText i, (tidText i).length⟩ := by
  have hlen := tidText_length hpos hlt
  rw [cacheTid, if_pos hl, snprintf, List.take_of_length_le (by omega)]

/-- The cache is empty, or holds what the kernel has answered. -/
def Cached (i : ℤ) (l : Locals) : Prop :=
  l.t_cachedTid = 0 ∨ l = ⟨i, tidText i, (tidText i).length⟩

theorem Cached.tid_eq {i : ℤ} {l : Locals} (h : Cached i l) (hpos : 0 < i) (hlt : i < 2 ^ 31) :
    tid i l = (i, ⟨i, tidText i, (tidText i).length⟩) := by
  rcases h with hzero | rfl
  · rw [tid, if_pos hzero, cacheTid_empty hpos hlt hzero]
  · rw [tid, if_neg hpos.ne']

namespace Threads

/-- Ids are not shared, and the caches are right. -/
structure Invariant (s : Threads T P) : Prop where
  distinct : ∀ {t u i}, s.status t = .running i → s.status u = .running i → t = u
  range : ∀ {t i}, s.status t = .running i → 0 < i ∧ i < 2 ^ 31
  cached : ∀ {t i}, s.status t = .running i → Cached i (s.locals t)

variable {s s' : Threads T P}

theorem Invariant.start (inv : Invariant s) {u : T} {p : P} {i : ℤ} {l : Locals}
    (hi : s.Fresh i) (hl : Cached i l) : Invariant (s.start u p i l) where
  distinct {t v j} ht hv := by
    rcases running_start.mp ht with ⟨rfl, rfl⟩ | ⟨-, hold⟩
    · rcases running_start.mp hv with ⟨rfl, -⟩ | ⟨-, hold'⟩
      · rfl
      · exact absurd hold' (hi.2.2 v)
    · rcases running_start.mp hv with ⟨rfl, rfl⟩ | ⟨-, hold'⟩
      · exact absurd hold (hi.2.2 t)
      · exact inv.distinct hold hold'
  range {t j} ht := by
    rcases running_start.mp ht with ⟨-, rfl⟩ | ⟨-, ht⟩
    · exact ⟨hi.1, hi.2.1⟩
    · exact inv.range ht
  cached {t j} ht := by
    rcases running_start.mp ht with ⟨rfl, rfl⟩ | ⟨htu, ht⟩
    · show Cached j (Function.update s.locals t l t)
      rwa [Function.update_self]
    · show Cached j (Function.update s.locals u l t)
      rw [Function.update_of_ne htu]
      exact inv.cached ht

/-- **Step lemma.** -/
theorem Invariant.step (inv : Invariant s) {x : Action T P} (h : Step s x (.ok s')) :
    Invariant s' := by
  cases h with
  | create ht hu hi => exact inv.start hi (.inl rfl)
  | fork ht hu hi hp =>
    refine inv.start hi (.inr ?_)
    exact congrArg Prod.snd (Cached.tid_eq (.inl rfl) hi.1 hi.2.1)
  | @exit t i ht =>
    have hback : ∀ {u j}, Function.update s.status t (.exited i) u = .running j →
        s.status u = .running j := by
      intro u j hu
      by_cases hut : u = t
      · rw [hut, Function.update_self] at hu
        cases hu
      · rwa [Function.update_of_ne hut] at hu
    exact ⟨fun ht hu => inv.distinct (hback ht) (hback hu), fun ht => inv.range (hback ht),
      fun ht => inv.cached (hback ht)⟩
  | @tid t i ht =>
    refine ⟨inv.distinct, inv.range, fun {u j} hu => ?_⟩
    by_cases hut : u = t
    · subst hut
      cases ht.symm.trans hu
      obtain ⟨hpos, hlt⟩ := inv.range ht
      refine .inr ?_
      show Function.update s.locals u _ u = _
      rw [Function.update_self, (inv.cached ht).tid_eq hpos hlt]
    · show Cached j (Function.update s.locals t _ u)
      rw [Function.update_of_ne hut]
      exact inv.cached hu

/-- **Run lemma.** -/
theorem reachable_invariant (h : (machine T P).Reachable s) : Invariant s := by
  refine h.invariant ?_ fun inv => inv.step
  rintro s ⟨t, i, hpos, hlt, hstatus, hlocals⟩
  have honly : ∀ {u j}, s.status u = .running j → u = t ∧ j = i := by
    intro u j hu
    rw [hstatus] at hu
    by_cases hut : u = t
    · rw [hut, Function.update_self] at hu
      cases hu
      exact ⟨hut, rfl⟩
    · rw [Function.update_of_ne hut] at hu
      cases hu
  refine ⟨fun ht hu => (honly ht).1.trans (honly hu).1.symm, fun ht => (honly ht).2 ▸ ⟨hpos, hlt⟩,
    fun ht => ?_⟩
  obtain ⟨rfl, rfl⟩ := honly ht
  rw [hlocals, Cached.tid_eq (.inl rfl) hpos hlt]
  exact .inr rfl

end Threads

/-- `tid` answers the id of the thread, in every process, and a `Logger` streams it. -/
theorem tid_of_reachable {s : Threads T P} (h : (machine T P).Reachable s) {t : T} {i : ℤ}
    (ht : s.status t = .running i) :
    (tid i (s.locals t)).1 = i ∧ streamTid i (s.locals t) = .ok (tidText i) := by
  have inv := Threads.reachable_invariant h
  obtain ⟨hpos, hlt⟩ := inv.range ht
  rw [streamTid, (inv.cached ht).tid_eq hpos hlt]
  exact ⟨rfl, by simp [bind, Except.bind, pure, Except.pure]⟩

end CurrentThread

end Dxian
