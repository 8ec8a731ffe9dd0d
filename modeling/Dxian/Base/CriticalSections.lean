import Dxian.Base.CountDownLatch
import Dxian.Base.Mutex

/-!
# Critical sections are atomic

A `Guarded` value, whose threads lock, test, update, notify and unlock in single steps, is a
`Monitor`, whose critical sections are one step each. A wait takes its step where it tests
the value, an update where it is about to unlock.

## Main results

- `monitor` — every run of a guarded value is a run of its monitor
- `latch_critical_sections` — the latch, one access after the other
-/

namespace Dxian

open Transition

namespace Guarded

variable {T V α : Type*}

/-- Where a thread is in the monitor. -/
def Pc.position : Pc V α → Monitor.Position
  | outside | locking (.update _) | assigning (.update _) | updating _ | notifying .. | unassigning
  | unlocking => .outside
  | locking .wait | assigning .wait | testing | relocking | reassigning => .testing
  | releasing | waiting => .sleeping false
  | sleeping notified => .sleeping notified

/-- The value in the monitor; `v` is the value itself. -/
def Pc.value (v : V) : Pc V α → V
  | notifying _ old _ => old
  | _ => v

/-- The value as the monitor has it: the thread that is inside may have updated it already. -/
def monitorValue (s : Guarded T V α) : V :=
  match s.mutex.owner with
  | some t => (s.pc t).value s.value
  | none => s.value

/-- The state of the monitor. -/
def monitorState (s : Guarded T V α) : Monitor.State T V :=
  ⟨s.monitorValue, fun t => (s.pc t).position⟩

/-- The step of the monitor. -/
def Action.monitor : Action T α → List (Monitor.Action T α)
  | call t .wait => [.call t]
  | test t => [.test t]
  | wake t => [.wake t]
  | wakeSpuriously t => [.wakeSpuriously t]
  | notify t a => [.update t a]
  | _ => []

/-- A broadcast reaches whom it reaches in the monitor, but for a thread that holds the mutex. -/
theorem Pc.position_notify {p : Pc V α} (h : p.inside = false) :
    p.notify.position = p.position.notify := by
  cases p with
  | locking x => cases x <;> rfl
  | outside | relocking | sleeping => rfl
  | _ => cases h

@[simp] theorem Pc.position_start (x : Body α) :
    (Pc.start x : Pc V α).position = (Pc.assigning x : Pc V α).position := by
  cases x <;> rfl

@[simp] theorem Pc.value_start (v : V) (x : Body α) : (Pc.start x : Pc V α).value v = v := by
  cases x <;> rfl

variable {s s' : Guarded T V α} {t : T}

theorem monitorValue_of_owner (h : s.mutex.owner = some t) :
    s.monitorValue = (s.pc t).value s.value := by
  rw [monitorValue, h]

theorem monitorValue_of_free (h : s.mutex.owner = none) : s.monitorValue = s.value := by
  rw [monitorValue, h]

/-- What a thread that has updated the value is about to tell. -/
def Updated (M : Monitor V α Fault) (s : Guarded T V α) : Prop :=
  ∀ t a old broadcast, s.pc t = .notifying a old broadcast →
    M.update a old = .ok (s.value, broadcast)

variable [DecidableEq T] {ids : ThreadIds T} {M : Monitor V α Fault}

/-- A thread goes to a place where it has not updated the value. -/
theorem Updated.move (h : Updated M s) {m : MutexLock T} {p : Pc V α}
    (hp : ∀ a old broadcast, p ≠ .notifying a old broadcast) :
    Updated M ⟨m, s.value, Function.update s.pc t p⟩ := by
  intro u a old broadcast hu
  by_cases hut : u = t
  · subst hut
    exact absurd (hu.symm.trans (Function.update_self ..)).symm (hp a old broadcast)
  · exact h u a old broadcast ((Function.update_of_ne hut ..).symm.trans hu)

theorem Updated.step (inv : Invariant ids s) (h : Updated M s) {a : Action T α}
    (hstep : Step ids M s a (.ok s')) : Updated M s' := by
  cases hstep with
  | call | lock | release | wake | wakeSpuriously | relock | reassign | unassignHolder =>
    exact h.move nofun
  | @assignHolder t x => exact h.move (by cases x <;> nofun)
  | test => exact h.move (by split <;> nofun)
  | sleep _ hr | unlock _ hr =>
    obtain ⟨m, -, rfl⟩ := exists_of_map_eq_ok hr
    exact h.move nofun
  | @update t b _ hpc hr =>
    obtain ⟨x, hx, rfl⟩ := exists_of_map_eq_ok hr
    intro u a old broadcast hu
    by_cases hut : u = t
    · subst hut
      cases hu.symm.trans (Function.update_self ..)
      exact hx
    · -- the other threads are outside
      have hpu : s.pc u = .notifying a old broadcast :=
        (Function.update_of_ne hut ..).symm.trans hu
      exact absurd (inv.unique (by rw [hpu]; rfl) (by rw [hpc]; rfl)) hut
  | @notify t b old broadcast hpc =>
    cases broadcast with
    | false => exact h.move nofun
    | true =>
      refine Updated.move (s := s.notifyAll) (fun u a old broadcast hu => ?_) nofun
      refine h u a old broadcast ?_
      have hnotify : (s.pc u).notify = .notifying a old broadcast := hu
      cases hpu : s.pc u <;> rw [hpu] at hnotify <;> first | exact hnotify | cases hnotify

theorem Updated.of_reachable (h : (machine ids M).Reachable s) : Updated M s := by
  refine (h.invariant (I := fun s => Invariant ids s ∧ Updated M s) (fun hinit => ?_)
    fun hinv hstep => ?_).2
  · refine ⟨invariant_init hinit, fun t a old broadcast ht => ?_⟩
    cases (hinit.2.2 t).symm.trans ht
  · exact ⟨hinv.1.step hstep, hinv.2.step hinv.1 hstep⟩

/-! ## The simulation -/

theorem position_update (f : T → Pc V α) (t : T) (p : Pc V α) :
    (fun u => (Function.update f t p u).position) =
      Function.update (fun u => (f u).position) t p.position := by
  funext u
  by_cases hu : u = t
  · rw [hu, Function.update_self, Function.update_self]
  · rw [Function.update_of_ne hu, Function.update_of_ne hu]

/-- The monitor after a step of the owner. -/
theorem monitorState_owner {m : MutexLock T} {v : V} {p : Pc V α} (howner : m.owner = some t) :
    monitorState ⟨m, v, Function.update s.pc t p⟩ =
      ⟨p.value v, Function.update (fun u => (s.pc u).position) t p.position⟩ := by
  have hvalue : monitorValue ⟨m, v, Function.update s.pc t p⟩ = p.value v := by
    refine (monitorValue_of_owner (s := ⟨m, v, _⟩) howner).trans ?_
    exact congrArg (Pc.value v) (Function.update_self ..)
  rw [monitorState, hvalue, position_update]

/-- The monitor after a step of the owner, or of the last one. -/
theorem monitorState_of_owner {m : MutexLock T} {v : V} {p : Pc V α}
    (hmay : m.owner = none ∨ m.owner = some t) (hp : p.value v = v) :
    monitorState ⟨m, v, Function.update s.pc t p⟩ =
      ⟨v, Function.update (fun u => (s.pc u).position) t p.position⟩ := by
  rcases hmay with h | h
  · rw [monitorState, monitorValue_of_free (s := ⟨m, v, _⟩) h, position_update]
  · rw [monitorState_owner h, hp]

/-- A step of the owner to a place with the same position does not show. -/
theorem monitorState_stay {m : MutexLock T} {p q : Pc V α} (hpc : s.pc t = q)
    (hbefore : s.mutex.owner = none ∨ s.mutex.owner = some t) (hq : q.value s.value = s.value)
    (hafter : m.owner = none ∨ m.owner = some t) (hp : p.value s.value = s.value)
    (hposition : p.position = q.position) :
    monitorState ⟨m, s.value, Function.update s.pc t p⟩ = s.monitorState := by
  subst hpc
  rw [monitorState_of_owner hafter hp, hposition, Function.update_eq_self]
  rcases hbefore with howner | howner
  · rw [monitorState, monitorValue_of_free howner]
  · rw [monitorState, monitorValue_of_owner howner, hq]

/-- The monitor after a step outside of the mutex. -/
theorem monitorState_move (inv : Invariant ids s) (hbefore : (s.pc t).inside = false)
    (p : Pc V α) : (s.move t p).monitorState = s.monitorState.move t p.position := by
  have hvalue : (s.move t p).monitorValue = s.monitorValue := by
    cases howner : s.mutex.owner with
    | none => rw [monitorValue_of_free (s := s.move t p) howner, monitorValue_of_free howner,
        move_value]
    | some u =>
      have hu : u ≠ t := by
        rintro rfl
        cases hbefore.symm.trans ((inv.owner u).mp howner)
      rw [monitorValue_of_owner (s := s.move t p) howner, monitorValue_of_owner howner, move_pc,
        Function.update_of_ne hu, move_value]
  rw [monitorState, hvalue, move_pc, position_update]
  rfl

/-- What a broadcast does to the positions, when `t` is about to unlock. -/
theorem position_notifyAll (inv : Invariant ids s) {p : Pc V α} (hin : (s.pc t).inside = true)
    (hbefore : (s.pc t).position = .outside) (hafter : p.position = .outside) :
    Function.update (fun u => (s.notifyAll.pc u).position) t p.position =
      fun u => (s.monitorState.position u).notify := by
  funext u
  show _ = (s.pc u).position.notify
  by_cases hu : u = t
  · rw [hu, Function.update_self, hbefore, hafter]
    rfl
  · rw [Function.update_of_ne hu]
    refine Pc.position_notify ?_
    rw [← Bool.not_eq_true]
    exact fun hinside => hu (inv.unique hinside hin)

/-- **Step lemma**: a step is the steps of the monitor that its label tells. -/
theorem Step.monitor (inv : Invariant ids s) (hupdated : Updated M s) {a : Action T α}
    (h : Step ids M s a (.ok s')) :
    (M.machine T).Run s.monitorState a.monitor s'.monitorState := by
  have hown : ∀ {t}, (s.pc t).inside = true → s.mutex.owner = none ∨ s.mutex.owner = some t :=
    fun hin => .inr ((inv.owner _).mpr hin)
  have hposition : ∀ {t p}, s.pc t = p → s.monitorState.position t = p.position :=
    fun hpc => congrArg Pc.position hpc
  have hquiet : ∀ {m : Monitor.State T V}, m = s.monitorState →
      (M.machine T).Run s.monitorState [] m := fun h => h ▸ .nil
  cases h with
  | @call t x hpc =>
    rw [monitorState_move inv (by rw [hpc]; rfl)]
    cases x with
    | wait => exact .single (.call (hposition hpc))
    | update a =>
      have hstay : s.monitorState.move t (Pc.locking (.update a) : Pc V α).position =
          s.monitorState := by
        rw [Monitor.State.move, show (Pc.locking (.update a) : Pc V α).position =
          s.monitorState.position t from (hposition hpc).symm, Function.update_eq_self]
      exact hquiet hstay
  | @lock t x hpc hfree =>
    exact hquiet (monitorState_stay hpc (.inl hfree) rfl (.inr rfl) rfl (by cases x <;> rfl))
  | @assignHolder t x hpc =>
    have hin : (s.pc t).inside = true := by rw [hpc]; rfl
    exact hquiet (monitorState_stay hpc (hown hin) rfl (hown hin) (Pc.value_start _ x)
      (Pc.position_start x))
  | @test t hpc =>
    have hin : (s.pc t).inside = true := by rw [hpc]; rfl
    have hvalue : s.monitorValue = s.value := by
      rw [monitorValue_of_owner ((inv.owner t).mpr hin), hpc]
      rfl
    cases hbusy : M.busy s.value with
    | true =>
      rw [if_pos rfl, move, monitorState_of_owner (hown hin) rfl, ← hvalue]
      exact .single (.sleep (hposition hpc) ((congrArg M.busy hvalue).trans hbusy))
    | false =>
      rw [if_neg nofun, move, monitorState_of_owner (hown hin) rfl, ← hvalue]
      exact .single (.leave (hposition hpc) ((congrArg M.busy hvalue).trans hbusy))
  | @release t hpc =>
    have hin : (s.pc t).inside = true := by rw [hpc]; rfl
    exact hquiet (monitorState_stay hpc (hown hin) rfl (hown hin) rfl rfl)
  | sleep hpc hr =>
    obtain ⟨m, hm, rfl⟩ := exists_of_map_eq_ok hr
    obtain ⟨howner, rfl⟩ := MutexLock.of_unlock hm
    exact hquiet (monitorState_stay hpc (.inr howner) rfl (.inl rfl) rfl rfl)
  | wake hpc =>
    rw [monitorState_move inv (by rw [hpc]; rfl)]
    exact .single (.wake (hposition hpc))
  | wakeSpuriously hpc =>
    rw [monitorState_move inv (by rw [hpc]; rfl)]
    exact .single (.wakeSpuriously (hposition hpc))
  | relock hpc hfree =>
    exact hquiet (monitorState_stay hpc (.inl hfree) rfl (.inr rfl) rfl rfl)
  | @reassign t hpc =>
    have hin : (s.pc t).inside = true := by rw [hpc]; rfl
    exact hquiet (monitorState_stay hpc (hown hin) rfl (hown hin) rfl rfl)
  | @update t a _ hpc hr =>
    -- the monitor keeps the old value until the thread is about to unlock
    obtain ⟨x, -, rfl⟩ := exists_of_map_eq_ok hr
    have howner : s.mutex.owner = some t := (inv.owner t).mpr (by rw [hpc]; rfl)
    have hbefore : s.monitorValue = s.value := by rw [monitorValue_of_owner howner, hpc]; rfl
    refine hquiet ?_
    rw [move, monitorState_owner howner, monitorState, hbefore,
      show (Pc.notifying a s.value x.2).position = (s.pc t).position by rw [hpc]; rfl,
      Function.update_eq_self]
    rfl
  | @notify t a old broadcast hpc =>
    have hin : (s.pc t).inside = true := by rw [hpc]; rfl
    have hupdate := hupdated t a old broadcast hpc
    have hvalue : s.monitorValue = old := by
      rw [monitorValue_of_owner ((inv.owner t).mpr hin), hpc]
      rfl
    rw [← hvalue] at hupdate
    cases broadcast with
    | false =>
      rw [if_neg nofun, move, monitorState_of_owner (hown hin) rfl,
        show (Pc.unassigning : Pc V α).position = (s.pc t).position by rw [hpc]; rfl,
        Function.update_eq_self]
      exact .single (.update (hposition hpc) hupdate)
    | true =>
      have hafter : (s.notifyAll.move t .unassigning).monitorState = ⟨s.value, _⟩ :=
        monitorState_of_owner (hown hin) rfl
      rw [if_pos rfl, hafter, position_notifyAll inv hin (hposition hpc) rfl]
      exact .single (.broadcast (hposition hpc) hupdate)
  | @unassignHolder t hpc =>
    have hin : (s.pc t).inside = true := by rw [hpc]; rfl
    exact hquiet (monitorState_stay hpc (hown hin) rfl (hown hin) rfl rfl)
  | unlock hpc hr =>
    obtain ⟨m, hm, rfl⟩ := exists_of_map_eq_ok hr
    obtain ⟨howner, rfl⟩ := MutexLock.of_unlock hm
    exact hquiet (monitorState_stay hpc (.inr howner) rfl (.inl rfl) rfl rfl)

/-- A guarded value is its monitor. -/
def monitor (ids : ThreadIds T) (M : Monitor V α Fault) :
    Projection (machine ids M) (M.machine T) where
  state := monitorState
  label := Action.monitor
  init {s} h := by
    have hvalue : s.monitorValue = s.value := monitorValue_of_free (by rw [h.2.1]; rfl)
    refine .of_init ⟨?_, fun t => congrArg Pc.position (h.2.2 t)⟩
    show M.init s.monitorValue
    rw [hvalue]
    exact h.1
  step h hstep := hstep.monitor (.of_reachable h) (.of_reachable h)

/-! ## The latch -/

omit [DecidableEq T] in
/-- The value in the monitor is the value, unless a thread has not notified its update yet. -/
theorem monitorValue_eq (h : ∀ t a old broadcast, s.pc t ≠ .notifying a old broadcast) :
    s.monitorValue = s.value := by
  cases howner : s.mutex.owner with
  | none => exact monitorValue_of_free howner
  | some t =>
    rw [monitorValue_of_owner howner]
    cases hpc : s.pc t with
    | notifying a old broadcast => exact absurd hpc (h t a old broadcast)
    | _ => rfl

variable {s₀ : Guarded T ℤ CountDownLatch.Call} {r : Guarded T ℤ CountDownLatch.Call}
variable {w : List (Action T CountDownLatch.Call)}

/-- The accesses that count down. -/
def Action.countsDown : Action T CountDownLatch.Call → Bool
  | update _ => true
  | _ => false

theorem value_step {a : Action T CountDownLatch.Call} {r' : Guarded T ℤ CountDownLatch.Call}
    (h : Step ids countDownLatch r a (.ok r')) :
    r'.value + [a].countP Action.countsDown = r.value := by
  cases h with
  | @update t b _ _ hr =>
    obtain ⟨x, hx, rfl⟩ := exists_of_map_eq_ok hr
    cases b
    have hcount := (CountDownLatch.countDown_eq_ok hx).1
    show x.1 + 1 = r.value
    omega
  | sleep _ hr | unlock _ hr =>
    obtain ⟨m, -, rfl⟩ := exists_of_map_eq_ok hr
    exact Int.add_zero _
  | @notify _ _ _ broadcast =>
    cases broadcast <;> exact Int.add_zero _
  | _ => exact Int.add_zero _

/-- `count_` is the initial count less the number of times that it was counted down. -/
theorem value_run (h : (machine ids countDownLatch).Run s₀ w r) :
    r.value + w.countP Action.countsDown = s₀.value := by
  induction h with
  | nil => exact Int.add_zero _
  | @snoc w r r' a _ hstep ih =>
    have hvalue := value_step hstep
    rw [List.countP_append]
    push_cast
    omega

/-- **Critical sections of the latch.** Let any number of threads wait for a latch and count it
down, in any interleaving of their accesses to the mutex, the condition and `count_`. The run is
a run of the monitor whose `wait` and `countDown` are atomic. A thread leaves the loop in `wait`
only after the latch has been counted down as often as its initial count says. While `count_` is
not positive, a thread that sleeps has been notified, or the thread that has made `count_` zero
has not unlocked yet and will notify it. -/
theorem latch_critical_sections (ids : ThreadIds T)
    (hinit : (machine ids countDownLatch).init s₀)
    (hrun : (machine ids countDownLatch).Run s₀ w r) :
    (countDownLatch.machine T).Run s₀.monitorState (w.flatMap Action.monitor) r.monitorState ∧
    (∀ t r', Step ids countDownLatch r (.test t) (.ok r') → r'.pc t = .unassigning →
      s₀.value ≤ w.countP Action.countsDown) ∧
    (r.value ≤ 0 → ∀ t, r.pc t = .sleeping false →
      ∃ u, r.mutex.owner = some u ∧ r.pc u = .notifying .countDown 1 true) := by
  have hreach : (machine ids countDownLatch).Reachable r := ⟨s₀, w, hinit, hrun⟩
  have inv := Invariant.of_reachable hreach
  have hvalue := value_run hrun
  refine ⟨(monitor ids countDownLatch).run (.of_init hinit) hrun, fun t r' hstep hleave => ?_,
    fun hcount t hsleep => ?_⟩
  · cases hstep with
    | test hpc =>
      rw [move_pc, Function.update_self] at hleave
      cases hbusy : countDownLatch.busy r.value with
      | true =>
        rw [hbusy, if_pos rfl] at hleave
        cases hleave
      | false =>
        have hcount := CountDownLatch.not_busy_iff.mp hbusy
        omega
  · have hmonitor := (monitor ids countDownLatch).reachable hreach
    have hposition : r.monitorState.position t = .sleeping false := congrArg Pc.position hsleep
    have hpositive : 0 < r.monitorValue := by
      by_contra hnot
      exact CountDownLatch.announces.no_lost_wakeup hmonitor
        (CountDownLatch.not_busy_iff.mpr (Int.not_lt.mp hnot)) t hposition
    -- the monitor still has the old count
    have hnotifying : ∃ u a old broadcast, r.pc u = .notifying a old broadcast := by
      by_contra hnot
      push Not at hnot
      rw [monitorValue_eq hnot] at hpositive
      omega
    obtain ⟨u, a, old, broadcast, hpc⟩ := hnotifying
    have howner : r.mutex.owner = some u := (inv.owner u).mpr (by rw [hpc]; rfl)
    rw [monitorValue_of_owner howner, hpc] at hpositive
    have hupdate := Updated.of_reachable hreach u a old broadcast hpc
    cases a
    obtain ⟨hless, hbroadcast⟩ := CountDownLatch.countDown_eq_ok hupdate
    have hold : 0 < old := hpositive
    obtain rfl : old = 1 := by omega
    have hzero : r.value = 0 := by omega
    rw [hzero] at hbroadcast
    rw [hbroadcast] at hpc
    exact ⟨u, howner, hpc⟩

/-- A thread waits, another one counts down: before it notifies, and when the first one
leaves. -/
theorem latch_critical_sections_two : ∃ r : Guarded Bool ℤ CountDownLatch.Call,
    r.pc true = .sleeping false ∧ r.value = 0 ∧
      ∃ u, r.mutex.owner = some u ∧ r.pc u = .notifying .countDown 1 true := by
  let ids : ThreadIds Bool := {
    tid := fun t => if t then 7 else 8
    injective := fun t u h => by cases t <;> cases u <;> first | rfl | cases h
    ne_zero := by decide }
  have hinit : (machine ids countDownLatch).init ⟨.unlocked, 1, fun _ => .outside⟩ :=
    ⟨show CInt.InRange 1 by decide, rfl, fun _ => rfl⟩
  have hrun : (machine ids countDownLatch).Run ⟨.unlocked, 1, fun _ => .outside⟩
      [.call true .wait, .lock true, .assignHolder true, .test true, .release true, .sleep true,
        .call false (.update .countDown), .lock false, .assignHolder false, .update false] _ :=
    .cons (.call rfl) <| .cons (.lock rfl rfl) <| .cons (.assignHolder rfl) <|
      .cons (.test rfl) <| .cons (.release rfl) <| .cons (.sleep rfl rfl) <|
      .cons (.call rfl) <| .cons (.lock rfl rfl) <| .cons (.assignHolder rfl) <|
      .single (.update rfl rfl)
  exact ⟨_, rfl, by decide,
    (latch_critical_sections ids hinit hrun).2.2 (by decide) true rfl⟩

end Guarded

end Dxian
