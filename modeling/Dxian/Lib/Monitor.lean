import Dxian.Lib.Transition
import Mathlib.Logic.Function.Basic

/-!
# Monitors

A value behind a mutex, with one condition variable. Threads wait while the value is busy,
and test it again whenever they wake up; other threads update the value. A critical section
is one step.

## Main definitions

- `Monitor.machine` — any number of threads that wait and update
- `Monitor.Announces` — no update ends the wait in silence

## Main results

- `Monitor.Announces.no_lost_wakeup` — nobody sleeps on while the value is not busy
- `Monitor.not_busy_of_return`, `Monitor.exists_return` — when a thread leaves, and that it can
-/

namespace Transition

/-- A value that threads wait for. An update says whether it broadcasts. -/
structure Monitor (V α ε : Type*) where
  init : V → Prop
  busy : V → Bool
  update : α → V → Except ε (V × Bool)

namespace Monitor

/-- Where a thread is: outside of `wait`, about to lock the mutex and test the value, or asleep
on the condition. -/
inductive Position
  | outside
  | testing
  | sleeping (notified : Bool)
deriving DecidableEq

/-- What a broadcast does to a thread. -/
def Position.notify : Position → Position
  | sleeping _ => sleeping true
  | p => p

theorem notify_eq_outside {p : Position} : p.notify = .outside ↔ p = .outside := by
  cases p with
  | outside => exact Iff.rfl
  | testing | sleeping => exact iff_of_false nofun nofun

theorem notify_ne_sleeping (p : Position) : p.notify ≠ .sleeping false := by
  cases p <;> nofun

structure State (T V : Type*) where
  value : V
  position : T → Position

inductive Action (T α : Type*)
  | call (t : T)
  | test (t : T)
  | wake (t : T)
  | wakeSpuriously (t : T)
  | update (t : T) (a : α)

variable {T V α ε : Type*} [DecidableEq T]

/-- A step of one thread. -/
def State.move (s : State T V) (t : T) (p : Position) : State T V :=
  { s with position := Function.update s.position t p }

@[simp] theorem State.move_position (s : State T V) (t : T) (p : Position) :
    (s.move t p).position = Function.update s.position t p := rfl

variable (M : Monitor V α ε)

inductive Step (s : State T V) : Action T α → Except ε (State T V) → Prop
  | call {t} (hpos : s.position t = .outside) : Step s (.call t) (.ok (s.move t .testing))
  | sleep {t} (hpos : s.position t = .testing) (hbusy : M.busy s.value = true) :
      Step s (.test t) (.ok (s.move t (.sleeping false)))
  | leave {t} (hpos : s.position t = .testing) (hbusy : M.busy s.value = false) :
      Step s (.test t) (.ok (s.move t .outside))
  | wake {t} (hpos : s.position t = .sleeping true) : Step s (.wake t) (.ok (s.move t .testing))
  | wakeSpuriously {t} (hpos : s.position t = .sleeping false) :
      Step s (.wakeSpuriously t) (.ok (s.move t .testing))
  | update {t a v} (hpos : s.position t = .outside) (hv : M.update a s.value = .ok (v, false)) :
      Step s (.update t a) (.ok { s with value := v })
  | broadcast {t a v} (hpos : s.position t = .outside) (hv : M.update a s.value = .ok (v, true)) :
      Step s (.update t a) (.ok ⟨v, fun u => (s.position u).notify⟩)
  | fault {t a e} (hpos : s.position t = .outside) (he : M.update a s.value = .error e) :
      Step s (.update t a) (.error e)

/-- The threads of `T`, none of which waits at the beginning. -/
def machine (T : Type*) [DecidableEq T] : System (State T V) (Action T α) ε where
  init s := M.init s.value ∧ ∀ t, s.position t = .outside
  step := M.Step

variable {M} {s s' : State T V} {a : Action T α} {t : T}

/-- **A thread leaves** only when the value is not busy. -/
theorem not_busy_of_return (hstep : M.Step s a (.ok s')) (hin : s.position t ≠ .outside)
    (hout : s'.position t = .outside) : M.busy s.value = false ∧ s'.value = s.value := by
  -- a step of another thread, or one that does not end outside, is impossible
  have hmoved : ∀ {u p}, (s.move u p).position t = .outside → u = t ∧ p = .outside := by
    intro u p h
    rw [State.move_position] at h
    by_cases hu : t = u
    · rw [hu, Function.update_self] at h
      exact ⟨hu.symm, h⟩
    · rw [Function.update_of_ne hu] at h
      exact absurd h hin
  cases hstep with
  | call | sleep | wake | wakeSpuriously => cases (hmoved hout).2
  | leave _ hbusy => exact ⟨hbusy, rfl⟩
  | update => exact absurd hout hin
  | broadcast => exact absurd (notify_eq_outside.mp hout) hin

variable (M) in
/-- An update after which the value is no longer busy broadcasts. -/
def Announces : Prop := ∀ {a v v' broadcast}, M.update a v = .ok (v', broadcast) →
  M.busy v = true → M.busy v' = false → broadcast = true

/-- **No lost wakeup**: while the value is not busy, whoever is asleep has been notified. -/
theorem Announces.no_lost_wakeup (hM : M.Announces) (h : (M.machine T).Reachable s)
    (hfree : M.busy s.value = false) (t : T) : s.position t ≠ .sleeping false := by
  refine h.invariant (I := fun s => M.busy s.value = false → ∀ t, s.position t ≠ .sleeping false)
    (fun hinit _ t => ?_) (fun {s a s'} ih hstep hfree t => ?_) hfree t
  · rw [hinit.2 t]
    nofun
  · have hmove : ∀ {u p}, M.busy s.value = false → p ≠ .sleeping false →
        (s.move u p).position t ≠ .sleeping false := by
      intro u p hs hp
      rw [State.move_position]
      by_cases hu : t = u
      · rwa [hu, Function.update_self]
      · rw [Function.update_of_ne hu]
        exact ih hs t
    cases hstep with
    | call | leave | wake | wakeSpuriously => exact hmove hfree nofun
    | sleep _ hbusy => cases hbusy.symm.trans hfree
    | @update _ _ v _ hv =>
      cases hbusy : M.busy s.value with
      | true => cases hM hv hbusy hfree
      | false => exact ih hbusy t
    | broadcast => exact notify_ne_sleeping _

/-- **Progress**: while the value is not busy, a thread that waits can leave by its own steps,
without a spurious wakeup. -/
theorem Announces.exists_return (hM : M.Announces) (h : (M.machine T).Reachable s)
    (hfree : M.busy s.value = false) (t : T) (hin : s.position t ≠ .outside) :
    ∃ w s', (∀ a ∈ w, a = .wake t ∨ a = .test t) ∧ (M.machine T).Run s w s' ∧
      s'.position t = .outside := by
  cases hpos : s.position t with
  | outside => exact absurd hpos hin
  | testing => exact ⟨[.test t], _, by simp, .single (.leave hpos hfree), Function.update_self ..⟩
  | sleeping notified =>
    cases notified with
    | false => exact absurd hpos (hM.no_lost_wakeup h hfree t)
    | true =>
      have htesting : (s.move t .testing).position t = .testing := Function.update_self ..
      have hleave : (M.machine T).step (s.move t .testing) (.test t) _ := .leave htesting hfree
      exact ⟨[.wake t, .test t], _, by simp, .cons (.wake hpos) (.single hleave),
        Function.update_self ..⟩

end Monitor

end Transition
