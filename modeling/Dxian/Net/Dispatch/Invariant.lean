import Dxian.Net.Dispatch.Defs
import Mathlib.Data.List.Nodup

/-!
# Whom the loop dispatches to

The invariant of the loop over the active channels: those that are still to be
handled are registered, and none of them is there twice. It rests on the `assert`
of `EventLoop::removeChannel`.

## Main results

- `Invariant.step`, `Passed.step` — what a step keeps
- `dispatches` — the channels that get the control, in every run over a sound poller
-/

namespace Dxian

open Transition

namespace Dispatcher

variable {T F C P X A : Type}

/-! ## The channels that are still to be handled -/

/-- The active channels that are still to be handled. -/
def pending (d : Dispatcher T F C P X) : List (ActiveChannel C) :=
  match d.loop.pc with
  | .handling _ active => active
  | _ => []

theorem advance_pollers (d : Dispatcher T F C P X) (x : EventLoop.Action T F C)
    (l : EventLoop T F C) : (d.advance x l).pollers = d.pollers := by
  cases x <;> rfl

theorem advance_activeChannels (d : Dispatcher T F C P X) (x : EventLoop.Action T F C)
    (l : EventLoop T F C) : (d.advance x l).activeChannels = d.activeChannels := by
  cases x <;> rfl

/-- A step of the loop other than `poll` takes at most the first of the active channels. -/
theorem loop_pending [DecidableEq T] {d : Dispatcher T F C P X} {x : EventLoop.Action T F C}
    {l : EventLoop T F C} (hpoll : ∀ active, x ≠ .poll active)
    (h : EventLoop.Step d.loop x (.ok l)) :
    d.pending = x.dispatched.toList ++ (d.advance x l).pending ∨
      (d.advance x l).pending = [] ∧ x.dispatched = none := by
  cases h with
  | poll => exact absurd rfl (hpoll _)
  | queueInLoop | quit | wakeup => exact .inl rfl
  | handleRead hpc => exact .inl (by simp [pending, hpc, advance, EventLoop.Action.dispatched])
  | handleEvent hpc => exact .inl (by simp [pending, hpc, advance, EventLoop.Action.dispatched])
  | finishEvent hpc => exact .inl (by simp [pending, hpc, advance, EventLoop.Action.dispatched])
  | test hpc =>
    refine .inr ⟨?_, rfl⟩
    cases d.loop.quit_ <;> simp [pending, advance]
  | doPendingFunctors | swap | runFunctor | finishFunctor | finishFunctors =>
    exact .inr ⟨rfl, rfl⟩

/-- No step of the loop other than `poll` makes a channel pending. -/
theorem mem_pending_of_loop [DecidableEq T] {d : Dispatcher T F C P X}
    {x : EventLoop.Action T F C} {l : EventLoop T F C} (hpoll : ∀ active, x ≠ .poll active)
    (h : EventLoop.Step d.loop x (.ok l)) {c : ActiveChannel C}
    (hc : c ∈ (d.advance x l).pending) : c ∈ d.pending := by
  rcases loop_pending hpoll h with heq | ⟨hnil, -⟩
  · rw [heq]
    exact List.mem_append_right _ hc
  · rw [hnil] at hc
    cases hc

/-- A channel that has been removed since the last `poll` is not handled any more. -/
def Passed (w : List (Action T F C A)) (d : Dispatcher T F C P X) : Prop :=
  ∀ v a u, w = v ++ .poll a :: u → (∀ b, .poll b ∉ u) →
    ∀ c, .call c .remove ∈ u → c ∉ d.pending

theorem Passed.polled (w : List (Action T F C A)) (a : A) (d : Dispatcher T F C P X) :
    Passed (w ++ [.poll a]) d := by
  intro v b u hw hu c hc
  obtain ⟨x, y, rfl⟩ : ∃ x y, u = x ++ [y] := by
    cases u using List.reverseRecOn with
    | nil => cases hc
    | append_singleton x y => exact ⟨x, y, rfl⟩
  have hlast : Action.poll a = y := by
    rw [← List.cons_append, ← List.append_assoc] at hw
    exact List.singleton_inj.mp (List.append_inj' hw rfl).2
  exact absurd (by simp [hlast]) (hu a)

/-- A step that leaves no more channels to handle, and removes none of them. -/
theorem Passed.snoc {w : List (Action T F C A)} {d d' : Dispatcher T F C P X}
    (h : Passed w d) {x : Action T F C A}
    (hpending : ∀ c ∈ d'.pending, c ∈ d.pending ∧ x ≠ .call c .remove) : Passed (w ++ [x]) d' := by
  intro v a u hw hu c hc hmem
  obtain ⟨hold, hx⟩ := hpending c hmem
  cases u using List.reverseRecOn with
  | nil => cases hc
  | append_singleton u y =>
    rw [← List.cons_append, ← List.append_assoc] at hw
    obtain ⟨rfl, hy⟩ := List.append_inj' hw rfl
    obtain rfl := List.singleton_inj.mp hy
    have hcu : Action.call c .remove ∈ u := by
      rcases List.mem_append.mp hc with hcu | hcx
      · exact hcu
      · exact absurd (List.mem_singleton.mp hcx).symm hx
    exact h v a u rfl (fun b hb => hu b (List.mem_append_left _ hb)) c hcu hold

variable [DecidableEq C] {D : Demultiplexer (ActiveChannel C) P X A}
variable {fd : ActiveChannel C → ℕ} {I : PollerState (ActiveChannel C) P → Prop}

/-- The invariant of the loop; `I` is the one of the poller. -/
structure Invariant (D : Demultiplexer (ActiveChannel C) P X A) (fd : ActiveChannel C → ℕ)
    (I : PollerState (ActiveChannel C) P → Prop) (d : Dispatcher T F C P X) : Prop where
  pollers : I d.pollers
  nodup : d.activeChannels.Nodup
  handling : ∀ current active, d.loop.pc = .handling current active →
    d.eventHandling = true ∧ ∃ handled, d.activeChannels = handled ++ active ∧
      ∀ c, current = some c → d.currentActiveChannel = some (.channel c) ∧ .channel c ∈ handled
  registered : ∀ c ∈ d.pending, D.hasChannel fd d.pollers c = true

theorem Invariant.mem_activeChannels {d : Dispatcher T F C P X} (inv : Invariant D fd I d)
    {c : ActiveChannel C} (hc : c ∈ d.pending) : c ∈ d.activeChannels := by
  cases hloop : d.loop.pc with
  | handling current active =>
    obtain ⟨-, handled, hsplit, -⟩ := inv.handling current active hloop
    rw [pending, hloop] at hc
    rw [hsplit]
    exact List.mem_append_right _ hc
  | _ => simp [pending, hloop] at hc

/-! ## The operations -/

/-- What an operation that does not fail has done. -/
theorem of_call {d : Dispatcher T F C P X} {c : ActiveChannel C} {op : Channel.Op}
    {s : PollerState (ActiveChannel C) P} (h : d.call D c op = .ok s) :
    D.call d.pollers (c, op) = .ok s ∧ (op = .remove → d.eventHandling = true →
      d.currentActiveChannel = some c ∨ c ∉ d.activeChannels) := by
  cases op with
  | change x => exact ⟨h, nofun⟩
  | remove =>
    have hnone : (d.pollers.channel c).isNoneEvent = true := by
      by_contra hassert
      rw [Bool.not_eq_true] at hassert
      simp [call, hassert, bind, Except.bind] at h
    simp only [call, hnone, check_true, bind, Except.bind, removeChannel] at h
    rw [Poller.call_remove _ hnone]
    by_cases hev : d.eventHandling = true
    · by_cases hassert : (d.currentActiveChannel == some c || !d.activeChannels.contains c) = true
      · simp only [hev, if_true, hassert, check_true] at h
        refine ⟨h, fun _ _ => ?_⟩
        simpa using hassert
      · rw [Bool.not_eq_true] at hassert
        simp only [hev, if_true, hassert, check_false] at h
        cases h
    · simp only [hev] at h
      exact ⟨h, fun _ hev' => absurd hev' hev⟩

/-- An operation that a handler calls does not remove a channel that is still to be
handled. -/
theorem Invariant.notMem_of_call {d : Dispatcher T F C P X} (inv : Invariant D fd I d)
    (hpc : d.loop.pc.InCallback ∨ d.loop.pc = .exited) {c : ActiveChannel C}
    {s : PollerState (ActiveChannel C) P} (h : d.call D c .remove = .ok s) :
    c ∉ d.pending := by
  intro hmem
  cases hloop : d.loop.pc with
  | handling current active =>
    have hactive : c ∈ active := by simpa [pending, hloop] using hmem
    obtain ⟨hev, handled, hsplit, hcurrent⟩ := inv.handling current active hloop
    have hdisjoint := List.disjoint_of_nodup_append (hsplit ▸ inv.nodup)
    obtain ⟨x, rfl⟩ : ∃ x, current = some x := by
      rw [hloop] at hpc
      cases current with
      | none => exact hpc.elim False.elim nofun
      | some x => exact ⟨x, rfl⟩
    obtain ⟨hcur, hhandled⟩ := hcurrent x rfl
    rcases (of_call h).2 rfl hev with heq | hnot
    · -- the channel being handled is among those that the loop has passed
      cases hcur.symm.trans heq
      exact hdisjoint hhandled hactive
    · exact hnot (hsplit ▸ List.mem_append_right _ hactive)
  | _ => simp [pending, hloop] at hmem

/-- An operation keeps the channels that it does not remove registered. -/
theorem hasChannel_of_call (sound : D.Sound fd I) {s s' : PollerState (ActiveChannel C) P}
    {c c' : ActiveChannel C} {op : Channel.Op} (hI : I s) (h : D.call s (c, op) = .ok s')
    (hne : op = .remove → c' ≠ c) (hc' : D.hasChannel fd s c' = true) :
    D.hasChannel fd s' c' = true := by
  have hinterest := (sound.refines.call hI h).2
  have hregistered : D.hasChannel fd s' c' =
      ((D.interest fd s).call (c, op)).registered c' :=
    congrFun (congrArg Interest.registered hinterest) c'
  rw [hregistered]
  cases op with
  | change x =>
    by_cases heq : c' = c
    · rw [heq]
      exact Function.update_self ..
    · show Function.update (D.interest fd s).registered c true c' = true
      rw [Function.update_of_ne heq]
      exact hc'
  | remove =>
    show Function.update (D.interest fd s).registered c false c' = true
    rw [Function.update_of_ne (hne rfl)]
    exact hc'

theorem Invariant.call (sound : D.Sound fd I) {d : Dispatcher T F C P X}
    (inv : Invariant D fd I d) (hpc : d.loop.pc.InCallback ∨ d.loop.pc = .exited)
    {c : ActiveChannel C} {op : Channel.Op} {s : PollerState (ActiveChannel C) P}
    (h : d.call D c op = .ok s) :
    Invariant D fd I { d with pollers := s } where
  pollers := (sound.refines.call inv.pollers (of_call h).1).1
  nodup := inv.nodup
  handling := inv.handling
  registered c' hc' := by
    refine hasChannel_of_call sound inv.pollers (of_call h).1 ?_ (inv.registered c' hc')
    rintro rfl rfl
    exact inv.notMem_of_call hpc h hc'

/-! ## The steps of the loop -/

theorem Invariant.enter {d : Dispatcher T F C P X} (inv : Invariant D fd I d) :
    Invariant D fd I d.enter where
  pollers := inv.pollers
  nodup := inv.nodup
  handling := nofun
  registered := nofun

theorem Invariant.polled (sound : D.Sound fd I) {d : Dispatcher T F C P X}
    (inv : Invariant D fd I d) {a : A} (ha : D.answers d.pollers d.wait a) :
    ∃ p, D.poll d.pollers d.wait d.revents a = .ok p ∧ Invariant D fd I (d.polled p) := by
  obtain ⟨p, hp, hI, hinterest, hnodup, hregistered⟩ := sound.poll inv.pollers ha
  refine ⟨p, hp, hI, hnodup, fun current active hpc => ?_, fun c hc => ?_⟩
  · cases hpc
    exact ⟨rfl, [], rfl, nofun⟩
  · have hsame : D.hasChannel fd p.pollers c = D.hasChannel fd d.pollers c :=
      congrFun (congrArg Interest.registered hinterest) c
    exact hsame.trans (hregistered c hc)

variable [DecidableEq T]

theorem Invariant.of_init {d : Dispatcher T F C P X} (sound : D.Sound fd I)
    (h : (machine T F D).init d) : Invariant D fd I d := by
  obtain ⟨hpc, hfresh, -, hactive, -⟩ := h
  refine ⟨?_, ?_, fun current active hh => ?_, ?_⟩
  · rw [hfresh]
    exact sound.refines.fresh.1
  · rw [hactive]
    exact .nil
  · cases hpc.symm.trans hh
  · rw [pending, hpc]
    nofun

theorem Invariant.loop {d : Dispatcher T F C P X} (inv : Invariant D fd I d)
    {x : EventLoop.Action T F C} {l : EventLoop T F C} (hpoll : ∀ active, x ≠ .poll active)
    (h : EventLoop.Step d.loop x (.ok l)) : Invariant D fd I (d.advance x l) where
  pollers := by
    rw [advance_pollers]
    exact inv.pollers
  nodup := by
    rw [advance_activeChannels]
    exact inv.nodup
  handling current active hpc := by
    cases h with
    | poll => exact absurd rfl (hpoll _)
    | queueInLoop | quit | wakeup => exact inv.handling current active hpc
    | @handleRead rest hold =>
      cases hpc
      obtain ⟨hev, handled, hsplit, -⟩ := inv.handling _ _ hold
      exact ⟨hev, handled ++ [.wakeupChannel], by simpa [advance] using hsplit, nofun⟩
    | @handleEvent c rest hold =>
      cases hpc
      obtain ⟨hev, handled, hsplit, -⟩ := inv.handling _ _ hold
      refine ⟨hev, handled ++ [.channel c], by simpa [advance] using hsplit, fun c' hc' => ?_⟩
      cases hc'
      exact ⟨rfl, by simp⟩
    | finishEvent hold =>
      cases hpc
      obtain ⟨hev, handled, hsplit, -⟩ := inv.handling _ _ hold
      exact ⟨hev, handled, hsplit, nofun⟩
    | test hold =>
      cases hq : d.loop.quit_ <;> simp [advance, hq] at hpc
    | doPendingFunctors | swap | runFunctor | finishFunctor | finishFunctors => cases hpc
  registered c hc := by
    rw [advance_pollers]
    exact inv.registered c (mem_pending_of_loop hpoll h hc)

/-- **Step lemma.** -/
theorem Invariant.step (sound : D.Sound fd I) {d d' : Dispatcher T F C P X}
    {x : Action T F C A} (inv : Invariant D fd I d) (h : Step D d x (.ok d')) :
    Invariant D fd I d' := by
  cases h with
  | enter hpc => exact inv.enter
  | loop hpoll hstep => exact inv.loop hpoll hstep
  | poll hpc ha hr =>
    obtain ⟨p, hp, hinv⟩ := inv.polled sound ha
    rw [hp] at hr
    cases hr
    exact hinv
  | call hpc hcall hr =>
    obtain ⟨s, hs, rfl⟩ := exists_of_map_eq_ok hr
    exact inv.call sound hpc hs

/-! ## The channels that get the control -/

/-- **Step lemma** for the removed channels. -/
theorem Passed.step {w : List (Action T F C A)} {d d' : Dispatcher T F C P X}
    (h : Passed w d) (inv : Invariant D fd I d) {x : Action T F C A}
    (hstep : Step D d x (.ok d')) : Passed (w ++ [x]) d' := by
  cases hstep with
  | enter hpc => exact h.snoc nofun
  | @loop x l hpoll hloop =>
    exact h.snoc fun c hc => ⟨mem_pending_of_loop hpoll hloop hc, nofun⟩
  | poll hpc ha hr => exact Passed.polled _ _ _
  | call hpc hcall hr =>
    obtain ⟨s, hs, rfl⟩ := exists_of_map_eq_ok hr
    refine h.snoc fun c' hc' => ⟨hc', ?_⟩
    rintro ⟨⟩
    exact inv.notMem_of_call hpc hs hc'

/-- **Run lemma.** -/
theorem run (sound : D.Sound fd I) {d₀ d : Dispatcher T F C P X} {w : List (Action T F C A)}
    (hinit : (machine T F D).init d₀) (h : (machine T F D).Run d₀ w d) :
    Invariant D fd I d ∧ Passed w d := by
  induction h with
  | nil => exact ⟨.of_init sound hinit, by intro v a u hw; simp at hw⟩
  | snoc _ hstep ih => exact ⟨ih.1.step sound hstep, ih.2.step ih.1 hstep⟩

/-- In every run of the loop `poll` fails no `assert`. A channel that gets the control
is registered, is one of the active channels, which are distinct, and has not been
removed since the last `poll`. -/
def Dispatches (T F : Type) [DecidableEq T] (D : Demultiplexer (ActiveChannel C) P X A)
    (fd : ActiveChannel C → ℕ) : Prop :=
  ∀ d₀ w d, (machine T F D).init d₀ → (machine T F D).Run d₀ w d →
    (∀ a e, ¬ Step D d (.poll a) (.error e)) ∧
    ∀ x d', Step D d (.loop x) (.ok d') → ∀ c, x.dispatched = some c →
      D.hasChannel fd d.pollers c = true ∧ d.activeChannels.Nodup ∧ c ∈ d.activeChannels ∧
        ∀ v a u, w = v ++ .poll a :: u → (∀ b, .poll b ∉ u) → .call c .remove ∉ u

theorem dispatches (sound : D.Sound fd I) : Dispatches T F D fd := by
  intro d₀ w d hinit hrun
  obtain ⟨inv, hpassed⟩ := run sound hinit hrun
  constructor
  · intro a e hstep
    cases hstep with
    | poll hpc ha hr =>
      obtain ⟨p, hp, -⟩ := inv.polled sound ha
      rw [hp] at hr
      cases hr
  · intro x d' hstep c hc
    cases hstep with
    | loop hpoll hloop =>
      have hpending : c ∈ d.pending := by
        rcases loop_pending hpoll hloop with heq | ⟨-, hnone⟩
        · rw [heq, hc]
          exact List.mem_cons_self
        · cases hc.symm.trans hnone
      refine ⟨inv.registered c hpending, inv.nodup, inv.mem_activeChannels hpending, ?_⟩
      intro v a u hw hu hmem
      exact hpassed v a u hw hu c hmem hpending

end Dispatcher

end Dxian
