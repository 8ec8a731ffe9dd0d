import Dxian.Net.Dispatch.Lifecycle

/-!
# Ties

A channel belongs to an object that is managed by `shared_ptr`, and `~Channel` runs in the
destructor of that object, in whatever thread releases the last pointer. `Channel::tie` keeps
a `weak_ptr` to the object, and `handleEvent` makes it a `shared_ptr` of its own while the
callbacks run. Threads copy and release their pointers at any time.

## Main results

- `Invariant.step` — the owner is alive while a pointer to it exists
- `tied_owner_outlives_handleEvent` — it is not destroyed in `handleEvent`
-/

namespace Dxian

open Transition

namespace Dispatcher

variable {T F C P X A : Type} [DecidableEq T] [DecidableEq C]
variable {D : Demultiplexer (ActiveChannel C) P X A} {fd : ActiveChannel C → ℕ}
variable {I : PollerState (ActiveChannel C) P → Prop} {d d' : Dispatcher T F C P X}

/-- Only `handleEvent` sets and resets `eventHandling_` of a channel. -/
theorem handling_of_step {x : Action T F C A} (h : Step D d x (.ok d'))
    (hhandle : ∀ c, x ≠ .loop (.handleEvent c)) (hfinish : x ≠ .loop .finishEvent) (c : C) :
    d'.handling (.channel c) = d.handling (.channel c) := by
  cases h with
  | enter hpc => simp [handling, enter, EventLoop.enter, hpc]
  | call _ _ hr =>
    obtain ⟨_, -, rfl⟩ := exists_of_map_eq_ok hr
    rfl
  | poll hpc _ hr =>
    obtain ⟨_, -, rfl⟩ := exists_of_map_eq_ok hr
    simp [handling, polled, hpc]
  | loop hpoll hloop =>
    cases hloop with
    | poll => exact absurd rfl (hpoll _)
    | handleEvent => exact absurd rfl (hhandle _)
    | finishEvent => exact absurd rfl hfinish
    | queueInLoop | quit | wakeup => rfl
    | test hpc => cases d.loop.quit_ <;> simp [handling, advance, hpc]
    | handleRead hpc | doPendingFunctors hpc | swap hpc | runFunctor hpc | finishFunctor hpc
    | finishFunctors hpc => simp [handling, advance, hpc]

theorem handling_of_handleEvent {c : C} (h : Step D d (.loop (.handleEvent c)) (.ok d')) (c' : C) :
    d.handling (.channel c') = false ∧ d'.handling (.channel c') = decide (c = c') := by
  cases h with
  | loop _ hloop =>
    cases hloop with
    | handleEvent hpc => exact ⟨by simp [handling, hpc], by simp [handling, advance]⟩

theorem handling_of_finishEvent (h : Step D d (.loop .finishEvent) (.ok d')) (c : C) :
    d'.handling (.channel c) = false := by
  cases h with
  | loop _ hloop =>
    cases hloop with
    | finishEvent => rfl

/-- A step registers and removes no channel but the one that it is a call on. -/
theorem hasChannel_of_step (sound : D.Sound fd I) (hI : I d.pollers) {x : Action T F C A}
    (h : Step D d x (.ok d')) {c : ActiveChannel C} (hx : ∀ op, x ≠ .call c op) :
    D.hasChannel fd d'.pollers c = D.hasChannel fd d.pollers c := by
  cases h with
  | enter => rfl
  | loop => rw [advance_pollers]
  | poll _ ha hr =>
    obtain ⟨p, hp, -, hinterest, -⟩ := sound.poll hI ha
    rw [hp] at hr
    cases hr
    exact congrFun (congrArg Interest.registered hinterest) c
  | @call c' op _ _ _ hr =>
    obtain ⟨s, hs, rfl⟩ := exists_of_map_eq_ok hr
    have hne : c ≠ c' := by
      rintro rfl
      exact hx op rfl
    have hinterest := (sound.refines.call hI (of_call hs).1).2
    refine (congrFun (congrArg Interest.registered hinterest) c).trans ?_
    cases op with
    | change => exact Function.update_of_ne hne ..
    | remove => exact Function.update_of_ne hne ..

/-- A channel that gets an event is registered. -/
theorem Invariant.registered_of_handleEvent (inv : Invariant D fd I d) {c : C}
    (h : Step D d (.loop (.handleEvent c)) (.ok d')) :
    D.hasChannel fd d.pollers (.channel c) = true := by
  cases h with
  | loop _ hloop =>
    cases hloop with
    | handleEvent hpc => exact inv.registered _ (by simp [pending, hpc])

end Dispatcher

/-- The object that a channel belongs to. It is `dying` from the release of the last pointer
to the end of its destructor, in a thread other than the one of the loop. -/
inductive Life
  | alive
  | dying
  | destroyed
deriving DecidableEq

/-- A loop and the owners of its channels. `uses` counts the `shared_ptr`s to an owner, but for
`guard`, the local variable of `Channel::handleEvent`. -/
structure Owners (T F C P X : Type) where
  loop : Dispatcher T F C P X
  tied_ : C → Bool
  uses : C → ℕ
  guard : Option C
  life : C → Life

namespace Owners

variable {T F C P X A : Type} [DecidableEq T] [DecidableEq C]

/-- Release one `shared_ptr`. -/
def release (s : Owners T F C P X) (c : C) : Owners T F C P X :=
  { s with
    uses := Function.update s.uses c (s.uses c - 1)
    life := if s.uses c = 1 ∧ s.guard ≠ some c then Function.update s.life c .dying
      else s.life }

/-- `Channel::~Channel`, in the destructor of the owner. -/
def destroyChannel (D : Demultiplexer (ActiveChannel C) P X A) (fd : ActiveChannel C → ℕ)
    (s : Owners T F C P X) (t : Thread T) (c : C) : Except Fault (Owners T F C P X) := do
  check !s.loop.handling (.channel c)
  check !(s.loop.pollers.channel (.channel c)).addedToLoop
  if t.isInLoopThread then
    check !D.hasChannel fd s.loop.pollers (.channel c)
  return { s with life := Function.update s.life c .destroyed }

/-- `handleEvent` returns to the loop. -/
def leave (d : Dispatcher T F C P X) : Dispatcher T F C P X :=
  match d.loop.pc with
  | .handling _ active => { d with loop := { d.loop with pc := .handling none active } }
  | _ => d

/-- `Channel::handleEvent` up to the first callback; `d` is the loop with the channel as its
current one. Without an owner to lock, it returns at once. -/
def handleEvent (s : Owners T F C P X) (c : C) (d : Dispatcher T F C P X) :
    Except Fault (Owners T F C P X) :=
  if s.life c = .destroyed then .error .useAfterFree
  else if s.tied_ c then
    if 0 < s.uses c then .ok { s with loop := d, guard := some c }
    else .ok { s with loop := leave d }
  else .ok { s with loop := d }

/-- The end of `Channel::handleEvent`, with the destructor of `guard`. -/
def unguard (D : Demultiplexer (ActiveChannel C) P X A) (fd : ActiveChannel C → ℕ)
    (s : Owners T F C P X) : Except Fault (Owners T F C P X) :=
  match s.guard with
  | some c =>
    if s.uses c = 0 then destroyChannel D fd { s with guard := none } .loop c
    else .ok { s with guard := none }
  | none => .ok s

inductive Action (T F C A : Type)
  | tie (c : C)
  | copy (c : C)
  | drop (t : Thread T) (c : C)
  | destroy (t : T) (c : C)
  | handleEvent (c : C)
  | finishEvent
  | step (x : Dispatcher.Action T F C A)

/-- The steps that are not about the event of an owned channel. -/
def Plain (s : Owners T F C P X) : Dispatcher.Action T F C A → Prop
  | .loop (.handleEvent _) | .loop .finishEvent => False
  | .call (.channel c) _ => s.life c ≠ .destroyed
  | _ => True

/-- One step of some thread. A thread copies a pointer that it has, or one that it gets from a
`weak_ptr`; on the thread of the loop a destructor runs within the release. -/
inductive Step (D : Demultiplexer (ActiveChannel C) P X A) (fd : ActiveChannel C → ℕ)
    (s : Owners T F C P X) : Action T F C A → Except Fault (Owners T F C P X) → Prop
  | tie {c} (hlife : s.life c = .alive) :
      Step D fd s (.tie c) (.ok { s with tied_ := Function.update s.tied_ c true })
  | copy {c} (hlife : s.life c = .alive) :
      Step D fd s (.copy c) (.ok { s with uses := Function.update s.uses c (s.uses c + 1) })
  | drop {t c} (huses : 0 < s.uses c) : Step D fd s (.drop (.other t) c) (.ok (s.release c))
  | dropInLoop {c r} (huses : 0 < s.uses c)
      (hpc : s.loop.loop.pc.InCallback ∨ s.loop.loop.pc = .exited)
      (hr : (if (s.release c).life c = .dying then (s.release c).destroyChannel D fd .loop c
        else .ok (s.release c)) = r) : Step D fd s (.drop .loop c) r
  | destroy {t c r} (hlife : s.life c = .dying) (hr : s.destroyChannel D fd (.other t) c = r) :
      Step D fd s (.destroy t c) r
  | handleEvent {c d r} (h : Dispatcher.Step D s.loop (.loop (.handleEvent c)) (.ok d))
      (hr : s.handleEvent c d = r) : Step D fd s (.handleEvent c) r
  | finishEvent {d r} (h : Dispatcher.Step D s.loop (.loop .finishEvent) (.ok d))
      (hr : unguard D fd { s with loop := d } = r) : Step D fd s .finishEvent r
  | step {x l r} (hx : s.Plain x) (h : Dispatcher.Step D s.loop x l)
      (hr : l.map (fun d => { s with loop := d }) = r) : Step D fd s (.step x) r

/-- The steps in which `~Channel` runs for the channel `c`. -/
def Destroys (s : Owners T F C P X) (c : C) : Action T F C A → Prop
  | .drop .loop c' => c' = c ∧ s.uses c = 1 ∧ s.guard ≠ some c
  | .destroy _ c' => c' = c
  | .finishEvent => s.guard = some c ∧ s.uses c = 0
  | _ => False

/-- The loop as constructed, and owners that somebody has a pointer to. -/
def machine (T F : Type) [DecidableEq T] (D : Demultiplexer (ActiveChannel C) P X A)
    (fd : ActiveChannel C → ℕ) : System (Owners T F C P X) (Action T F C A) Fault where
  init s := (Dispatcher.machine T F D).init s.loop ∧ (∀ c, s.tied_ c = false) ∧
    (∀ c, 0 < s.uses c) ∧ s.guard = none ∧ ∀ c, s.life c = .alive
  step := Step D fd

/-! ## The owners -/

variable {D : Demultiplexer (ActiveChannel C) P X A} {fd : ActiveChannel C → ℕ}
variable {I : PollerState (ActiveChannel C) P → Prop} {s s' : Owners T F C P X}

/-- An owner is alive while a pointer to it exists; a destroyed channel is neither registered
nor handled. -/
structure Invariant (D : Demultiplexer (ActiveChannel C) P X A) (fd : ActiveChannel C → ℕ)
    (I : PollerState (ActiveChannel C) P → Prop) (s : Owners T F C P X) : Prop where
  loop : Dispatcher.Invariant D fd I s.loop
  alive : ∀ c, s.life c = .alive ↔ 0 < s.uses c ∨ s.guard = some c
  guarded : ∀ c, s.guard = some c → s.loop.handling (.channel c) = true
  destroyed : ∀ c, s.life c = .destroyed →
    D.hasChannel fd s.loop.pollers (.channel c) = false ∧ s.loop.handling (.channel c) = false

omit [DecidableEq T] in
/-- What `~Channel` asserts, in whatever thread it runs. -/
theorem destroyChannel_eq (hadded : D.Added fd s.loop.pollers) (t : Thread T) (c : C) :
    s.destroyChannel D fd t c =
      if s.loop.handling (.channel c) = false ∧
          D.hasChannel fd s.loop.pollers (.channel c) = false then
        .ok { s with life := Function.update s.life c .destroyed }
      else .error .assertion := by
  rw [destroyChannel, hadded]
  cases s.loop.handling (.channel c) <;> cases D.hasChannel fd s.loop.pollers (.channel c) <;>
    cases t <;> rfl

omit [DecidableEq T] in
theorem destroyChannel_eq_error_iff (hadded : D.Added fd s.loop.pollers) (t : Thread T) (c : C)
    (e : Fault) : s.destroyChannel D fd t c = .error e ↔ e = .assertion ∧
      (D.hasChannel fd s.loop.pollers (.channel c) = true ∨
        s.loop.handling (.channel c) = true) := by
  rw [destroyChannel_eq hadded]
  cases s.loop.handling (.channel c) <;> cases D.hasChannel fd s.loop.pollers (.channel c) <;>
    simp [eq_comm]

omit [DecidableEq T] in
theorem Invariant.copy (inv : Invariant D fd I s) {c : C} (hlife : s.life c = .alive) :
    Invariant D fd I { s with uses := Function.update s.uses c (s.uses c + 1) } where
  loop := inv.loop
  alive c' := by
    by_cases hc : c' = c
    · subst hc
      simp [hlife]
    · simp [hc, inv.alive c']
  guarded := inv.guarded
  destroyed := inv.destroyed

omit [DecidableEq T] in
theorem Invariant.release (inv : Invariant D fd I s) {c : C} (huses : 0 < s.uses c) :
    Invariant D fd I (s.release c) where
  loop := inv.loop
  alive c' := by
    have halive := inv.alive c'
    by_cases hc : c' = c
    · subst hc
      have hlife := halive.mpr (.inl huses)
      by_cases hlast : s.uses c' = 1 ∧ s.guard ≠ some c'
      · simp [Owners.release, hlast]
      · simp only [Owners.release, hlast, if_false, hlife, Function.update_self, true_iff]
        by_cases hone : s.uses c' = 1
        · exact .inr (not_not.mp fun hguard => hlast ⟨hone, hguard⟩)
        · exact .inl (by omega)
    · by_cases hlast : s.uses c = 1 ∧ s.guard ≠ some c <;>
        simp [Owners.release, hlast, hc, halive]
  guarded := inv.guarded
  destroyed c' h := by
    refine inv.destroyed c' ?_
    by_cases hlast : s.uses c = 1 ∧ s.guard ≠ some c
    · by_cases hc : c' = c
      · subst hc
        simp [Owners.release, hlast] at h
      · simpa [Owners.release, hlast, hc] using h
    · simpa [Owners.release, hlast] using h

omit [DecidableEq T] in
/-- The last pointer is gone when the destructor runs. -/
theorem Invariant.destroyChannel (hremovable : D.Removable fd I) (inv : Invariant D fd I s)
    {t : Thread T} {c : C} (hlife : s.life c = .dying) (h : s.destroyChannel D fd t c = .ok s') :
    Invariant D fd I s' := by
  rw [destroyChannel_eq (hremovable.added inv.loop.pollers)] at h
  split at h
  · next hidle =>
    cases h
    refine ⟨inv.loop, fun c' => ?_, inv.guarded, fun c' hc' => ?_⟩
    · by_cases hc : c' = c
      · subst hc
        have hgone := mt (inv.alive c').mpr (by simp [hlife])
        simpa using hgone
      · simp [hc, inv.alive c']
    · by_cases hc : c' = c
      · exact hc ▸ hidle.symm
      · exact inv.destroyed c' (by simpa [hc] using hc')
  · cases h

omit [DecidableEq T] in
theorem leave_handling (d : Dispatcher T F C P X) (c : C) :
    (leave d).handling (.channel c) = false := by
  cases hpc : d.loop.pc <;> simp [leave, Dispatcher.handling, hpc]

omit [DecidableEq T] [DecidableEq C] in
theorem leave_pollers (d : Dispatcher T F C P X) : (leave d).pollers = d.pollers := by
  cases hpc : d.loop.pc <;> simp [leave, hpc]

omit [DecidableEq T] in
theorem leave_invariant {d : Dispatcher T F C P X} (inv : Dispatcher.Invariant D fd I d) :
    Dispatcher.Invariant D fd I (leave d) := by
  cases hpc : d.loop.pc with
  | handling current active =>
    simp only [leave, hpc]
    obtain ⟨hev, handled, hsplit, -⟩ := inv.handling _ _ hpc
    refine ⟨inv.pollers, inv.nodup, fun current' active' h => ?_, fun c hc => ?_⟩
    · cases h
      exact ⟨hev, handled, hsplit, nofun⟩
    · exact inv.registered c (by simpa [Dispatcher.pending, hpc] using hc)
  | _ => simpa only [leave, hpc] using inv

/-- A channel that gets an event has not been destroyed; if its owner is still there, it is
kept until `handleEvent` returns. -/
theorem Invariant.handleEvent (sound : D.Sound fd I) (inv : Invariant D fd I s) {c : C}
    {d : Dispatcher T F C P X} (hstep : Dispatcher.Step D s.loop (.loop (.handleEvent c)) (.ok d)) :
    ∃ s', s.handleEvent c d = .ok s' ∧ Invariant D fd I s' := by
  have hregistered := inv.loop.registered_of_handleEvent hstep
  have hlife : s.life c ≠ .destroyed := by
    intro hlife
    cases hregistered.symm.trans (inv.destroyed c hlife).1
  have hnone : s.guard = none := by
    refine Option.eq_none_iff_forall_ne_some.mpr fun c' hguard => ?_
    cases (inv.guarded c' hguard).symm.trans (Dispatcher.handling_of_handleEvent hstep c').1
  have hloop := inv.loop.step sound hstep
  have hdestroyed : ∀ c', s.life c' = .destroyed →
      D.hasChannel fd d.pollers (.channel c') = false ∧ d.handling (.channel c') = false := by
    intro c' hc'
    have hne : c ≠ c' := by
      rintro rfl
      exact hlife hc'
    rw [Dispatcher.hasChannel_of_step sound inv.loop.pollers hstep nofun,
      (Dispatcher.handling_of_handleEvent hstep c').2]
    exact ⟨(inv.destroyed c' hc').1, decide_eq_false hne⟩
  rw [Owners.handleEvent, if_neg hlife]
  by_cases htied : s.tied_ c = true
  · rw [if_pos htied]
    by_cases huses : 0 < s.uses c
    · refine ⟨_, if_pos huses, hloop, fun c' => ?_, fun c' hc' => ?_, hdestroyed⟩
      · rw [inv.alive c', hnone]
        by_cases hc : c = c'
        · subst hc
          simp [huses]
        · simp [hc]
      · cases hc'
        rw [(Dispatcher.handling_of_handleEvent hstep c).2, decide_eq_true rfl]
    · refine ⟨_, if_neg huses, leave_invariant hloop, inv.alive, fun c' hc' => ?_,
        fun c' hc' => ⟨?_, leave_handling d c'⟩⟩
      · cases hnone.symm.trans hc'
      · exact (congrArg (D.hasChannel fd · _) (leave_pollers d)).trans (hdestroyed c' hc').1
  · rw [if_neg htied]
    refine ⟨_, rfl, hloop, inv.alive, fun c' hc' => ?_, hdestroyed⟩
    cases hnone.symm.trans hc'

/-- The owner dies with `guard` if all other pointers are gone. -/
theorem Invariant.unguard (sound : D.Sound fd I) (hremovable : D.Removable fd I)
    (inv : Invariant D fd I s) {d : Dispatcher T F C P X}
    (hstep : Dispatcher.Step D s.loop (.loop .finishEvent) (.ok d))
    (h : Owners.unguard D fd { s with loop := d } = .ok s') : Invariant D fd I s' := by
  have hloop := inv.loop.step sound hstep
  have hdestroyed : ∀ c, s.life c = .destroyed →
      D.hasChannel fd d.pollers (.channel c) = false ∧ d.handling (.channel c) = false := by
    intro c hc
    rw [Dispatcher.hasChannel_of_step sound inv.loop.pollers hstep nofun]
    exact ⟨(inv.destroyed c hc).1, Dispatcher.handling_of_finishEvent hstep c⟩
  cases hguard : s.guard with
  | none =>
    simp only [Owners.unguard, hguard] at h
    cases h
    refine ⟨hloop, fun c => ?_, nofun, hdestroyed⟩
    rw [inv.alive c, hguard]
  | some c =>
    simp only [Owners.unguard, hguard] at h
    have halive : ∀ c', c' ≠ c → (s.life c' = .alive ↔ 0 < s.uses c') := by
      intro c' hc'
      rw [inv.alive c', hguard]
      simp [Ne.symm hc']
    by_cases huses : s.uses c = 0
    · -- the release of `guard` is the one of the last pointer
      rw [if_pos huses] at h
      have hdying : Invariant D fd I
          { s with loop := d, guard := none, life := Function.update s.life c .dying } := by
        refine ⟨hloop, fun c' => ?_, nofun, fun c' hc' => ?_⟩
        · by_cases hc : c' = c
          · subst hc
            simp [huses]
          · simp [hc, halive c' hc]
        · refine hdestroyed c' ?_
          by_cases hc : c' = c
          · subst hc
            simp at hc'
          · simpa [hc] using hc'
      refine hdying.destroyChannel hremovable (t := .loop) (c := c) (by simp) ?_
      rw [destroyChannel_eq (hremovable.added hloop.pollers)] at h ⊢
      simpa only [Function.update_idem] using h
    · rw [if_neg huses] at h
      cases h
      refine ⟨hloop, fun c' => ?_, nofun, hdestroyed⟩
      by_cases hc : c' = c
      · subst hc
        have hlife := (inv.alive c').mpr (.inr hguard)
        simp [hlife, Nat.pos_of_ne_zero huses]
      · simp [halive c' hc]

theorem Invariant.plain (sound : D.Sound fd I) (inv : Invariant D fd I s)
    {x : Dispatcher.Action T F C A} (hx : s.Plain x) {d : Dispatcher T F C P X}
    (hstep : Dispatcher.Step D s.loop x (.ok d)) :
    Invariant D fd I { s with loop := d } ∧
      ∀ c, d.handling (.channel c) = s.loop.handling (.channel c) := by
  have hhandling : ∀ c, d.handling (.channel c) = s.loop.handling (.channel c) := by
    refine Dispatcher.handling_of_step hstep ?_ ?_
    · rintro c rfl
      exact hx
    · rintro rfl
      exact hx
  refine ⟨⟨inv.loop.step sound hstep, inv.alive, fun c hc => ?_, fun c hc => ?_⟩, hhandling⟩
  · exact (hhandling c).trans (inv.guarded c hc)
  · obtain ⟨hregistered, hidle⟩ := inv.destroyed c hc
    refine ⟨?_, (hhandling c).trans hidle⟩
    refine (Dispatcher.hasChannel_of_step sound inv.loop.pollers hstep ?_).trans hregistered
    rintro op rfl
    exact hx hc

/-- **Step lemma.** -/
theorem Invariant.step (sound : D.Sound fd I) (hremovable : D.Removable fd I)
    (inv : Invariant D fd I s) {x : Action T F C A} (h : Step D fd s x (.ok s')) :
    Invariant D fd I s' := by
  cases h with
  | tie => exact ⟨inv.loop, inv.alive, inv.guarded, inv.destroyed⟩
  | copy hlife => exact inv.copy hlife
  | drop huses => exact inv.release huses
  | dropInLoop huses _ hr =>
    split at hr
    · next hdying => exact (inv.release huses).destroyChannel hremovable hdying hr
    · cases hr
      exact inv.release huses
  | destroy hlife hr => exact inv.destroyChannel hremovable hlife hr
  | handleEvent hstep hr =>
    obtain ⟨s'', hs, hinv⟩ := inv.handleEvent sound hstep
    rw [hs] at hr
    cases hr
    exact hinv
  | finishEvent hstep hr => exact inv.unguard sound hremovable hstep hr
  | step hx hstep hr =>
    obtain ⟨d, rfl, rfl⟩ := exists_of_map_eq_ok hr
    exact (inv.plain sound hx hstep).1

theorem Invariant.of_init (sound : D.Sound fd I) (h : (machine T F D fd).init s) :
    Invariant D fd I s := by
  obtain ⟨hloop, -, huses, hguard, hlife⟩ := h
  refine ⟨.of_init sound hloop, fun c => ?_, fun c hc => ?_, fun c hc => ?_⟩
  · simp [hlife c, huses c]
  · cases hguard.symm.trans hc
  · cases (hlife c).symm.trans hc

theorem Invariant.run (sound : D.Sound fd I) (hremovable : D.Removable fd I)
    {w : List (Action T F C A)} (inv : Invariant D fd I s)
    (h : (machine T F D fd).Run s w s') : Invariant D fd I s' :=
  h.preserves (P := fun _ => True) (fun _ inv hstep => inv.step sound hremovable hstep)
    (fun _ _ => trivial) inv

/-! ## The guard of a tied channel -/

/-- While a tied channel is handled, `guard` points to its owner. -/
def Tied (s : Owners T F C P X) (c : C) : Prop :=
  s.tied_ c = true ∧ (s.loop.handling (.channel c) = true → s.guard = some c)

omit [DecidableEq T] in
theorem Tied.destroyChannel {c c' : C} {t : Thread T} (h : s.Tied c)
    (hadded : D.Added fd s.loop.pollers) (hr : s.destroyChannel D fd t c' = .ok s') :
    s'.Tied c := by
  rw [destroyChannel_eq hadded] at hr
  split at hr <;> cases hr
  exact h

theorem Tied.step (sound : D.Sound fd I) (hremovable : D.Removable fd I)
    (inv : Invariant D fd I s) {c : C} (h : s.Tied c) {x : Action T F C A}
    (hstep : Step D fd s x (.ok s')) : s'.Tied c := by
  cases hstep with
  | @tie c' =>
    refine ⟨?_, h.2⟩
    by_cases hc : c = c'
    · simp [hc]
    · simp [hc, h.1]
  | copy | drop => exact h
  | @dropInLoop c' _ _ _ hr =>
    split at hr
    · exact Tied.destroyChannel (s := s.release c') h (hremovable.added inv.loop.pollers) hr
    · cases hr
      exact h
  | destroy _ hr => exact h.destroyChannel (hremovable.added inv.loop.pollers) hr
  | @handleEvent c' d _ hloop hr =>
    have hhandling := (Dispatcher.handling_of_handleEvent hloop c).2
    unfold Owners.handleEvent at hr
    split at hr
    · cases hr
    · split at hr
      · split at hr <;> cases hr
        · refine ⟨h.1, fun hc => ?_⟩
          rw [hhandling] at hc
          exact congrArg some (of_decide_eq_true hc)
        · exact ⟨h.1, fun hc => nomatch (leave_handling d c).symm.trans hc⟩
      · next htied =>
        cases hr
        refine ⟨h.1, fun hc => ?_⟩
        rw [hhandling] at hc
        rw [of_decide_eq_true hc] at htied
        exact absurd h.1 htied
  | @finishEvent d _ hloop hr =>
    have hidle := Dispatcher.handling_of_finishEvent hloop c
    have hadded := hremovable.added (inv.loop.step sound hloop).pollers
    have hafter : ∀ g, Tied { s with loop := d, guard := g } c :=
      fun g => ⟨h.1, fun hc => nomatch hidle.symm.trans hc⟩
    unfold unguard at hr
    split at hr
    · split at hr
      · exact (hafter none).destroyChannel hadded hr
      · cases hr
        exact hafter none
    · cases hr
      exact hafter s.guard
  | step hx hloop hr =>
    obtain ⟨d, rfl, rfl⟩ := exists_of_map_eq_ok hr
    exact ⟨h.1, fun hc => h.2 (((inv.plain sound hx hloop).2 c).symm.trans hc)⟩

/-! ## The faults -/

/-- `~Channel` fails an `assert` if and only if the channel is registered, or is handled by a
`handleEvent` that has no `guard`. -/
theorem Invariant.destructor (sound : D.Sound fd I) (hremovable : D.Removable fd I)
    (inv : Invariant D fd I s) {x : Action T F C A} {c : C}
    {r : Except Fault (Owners T F C P X)} (h : Step D fd s x r) (hx : s.Destroys c x) :
    r = .error .assertion ↔ D.hasChannel fd s.loop.pollers (.channel c) = true ∨
      s.loop.handling (.channel c) = true ∧ s.guard ≠ some c := by
  have hadded := hremovable.added inv.loop.pollers
  cases h with
  | tie | copy | drop | handleEvent | step => exact hx.elim
  | dropInLoop _ _ hr =>
    obtain ⟨rfl, hone, hguard⟩ := hx
    rw [if_pos (by simp [Owners.release, hone, hguard])] at hr
    rw [← hr, destroyChannel_eq_error_iff (s := s.release _) hadded]
    simp [Owners.release, hguard]
  | destroy hlife hr =>
    obtain rfl := hx
    have hguard : s.guard ≠ some _ := fun hc => by
      cases hlife.symm.trans ((inv.alive _).mpr (.inr hc))
    rw [← hr, destroyChannel_eq_error_iff hadded]
    simp [hguard]
  | @finishEvent d _ hloop hr =>
    obtain ⟨hguard, huses⟩ := hx
    have hadded' := hremovable.added (inv.loop.step sound hloop).pollers
    simp only [Owners.unguard, hguard, huses, if_true] at hr
    rw [← hr, destroyChannel_eq_error_iff hadded',
      Dispatcher.handling_of_finishEvent hloop,
      Dispatcher.hasChannel_of_step sound inv.loop.pollers hloop (by simp)]
    simp [hguard]

/-- The other faults are those of the loop and the operations on its channels. -/
theorem Invariant.fault (sound : D.Sound fd I) (inv : Invariant D fd I s) {x : Action T F C A}
    {e : Fault} (h : Step D fd s x (.error e)) :
    (∃ y, x = .step y ∧ Dispatcher.Step D s.loop y (.error e)) ∨ ∃ c, s.Destroys c x := by
  cases h with
  | @dropInLoop c _ huses _ hr =>
    refine .inr ⟨c, rfl, ?_⟩
    split at hr
    · next hdying =>
      by_contra hnot
      have hlife := (inv.alive c).mpr (.inl huses)
      rw [Owners.release, if_neg hnot, hlife] at hdying
      cases hdying
    · cases hr
  | @destroy _ c => exact .inr ⟨c, rfl⟩
  | handleEvent hloop hr =>
    obtain ⟨_, hs, -⟩ := inv.handleEvent sound hloop
    cases hs.symm.trans hr
  | finishEvent hloop hr =>
    cases hguard : s.guard with
    | none =>
      simp only [Owners.unguard, hguard] at hr
      cases hr
    | some c =>
      simp only [Owners.unguard, hguard] at hr
      split at hr
      · next huses => exact .inr ⟨c, hguard, huses⟩
      · cases hr
  | @step _ l _ _ hloop hr =>
    cases l with
    | error e' =>
      cases hr
      exact .inl ⟨_, rfl, hloop⟩
    | ok => cases hr

/-- In every run: a channel that is tied when it is not handled has an owner that is alive
whenever it is handled, whoever releases pointers to it meanwhile. `handleEvent` never reaches
a channel that has been destroyed. Besides the steps of the loop, what fails an `assert` are the
destructors, if and only if the channel is registered, or is handled and not tied. -/
def Outlives (T F : Type) [DecidableEq T] (D : Demultiplexer (ActiveChannel C) P X A)
    (fd : ActiveChannel C → ℕ) : Prop :=
  ∀ s₀ v s u s', (machine T F D fd).init s₀ → (machine T F D fd).Run s₀ v s →
    (machine T F D fd).Run s u s' →
    (∀ c, s.tied_ c = true → s.loop.handling (.channel c) = false →
      s'.loop.handling (.channel c) = true → s'.guard = some c ∧ s'.life c = .alive) ∧
    (∀ x e, Step D fd s' x (.error e) →
      (∃ y, x = .step y ∧ Dispatcher.Step D s'.loop y (.error e)) ∨ ∃ c, s'.Destroys c x) ∧
    ∀ x c r, Step D fd s' x r → s'.Destroys c x →
      (r = .error .assertion ↔ D.hasChannel fd s'.loop.pollers (.channel c) = true ∨
        s'.loop.handling (.channel c) = true ∧ s'.guard ≠ some c)

theorem outlives (sound : D.Sound fd I) (hremovable : D.Removable fd I) :
    Outlives T F D fd := by
  intro s₀ v s u s' hinit hv hu
  have inv := (Invariant.of_init sound hinit).run sound hremovable hv
  have inv' := inv.run sound hremovable hu
  refine ⟨fun c htied hidle hhandling => ?_, fun x e h => inv'.fault sound h,
    fun x c r h hx => inv'.destructor sound hremovable h hx⟩
  have hend : Invariant D fd I s' ∧ s'.Tied c :=
    hu.preserves (P := fun _ => True) (I := fun s => Invariant D fd I s ∧ s.Tied c)
      (fun _ h hstep => ⟨h.1.step sound hremovable hstep, h.2.step sound hremovable h.1 hstep⟩)
      (fun _ _ => trivial) ⟨inv, htied, fun hc => nomatch hidle.symm.trans hc⟩
  have hguard := hend.2.2 hhandling
  exact ⟨hguard, (inv'.alive c).mpr (.inr hguard)⟩

end Owners

/-- **`Channel::tie`.** Over `EPollPoller` and over `PollPoller`: a tie keeps the owner of a
channel alive until `handleEvent` returns, no event reaches a channel that is destroyed, and
`~Channel` fails an `assert` exactly for a channel that is registered, or is handled without
a tie. -/
theorem tied_owner_outlives_handleEvent (T F : Type) {C : Type} [DecidableEq T] [DecidableEq C]
    (fd : ActiveChannel C → ℕ) : Owners.Outlives T F (ePollDemultiplexer fd) fd ∧
      Owners.Outlives T F (pollDemultiplexer fd) fd :=
  ⟨Owners.outlives (EPollPoller.sound fd) (EPollPoller.removable fd),
    Owners.outlives (PollPoller.sound_added fd) (PollPoller.removable fd)⟩

/-- A channel gets the file descriptor of a destroyed one. Its last pointer is released while it
is handled. -/
theorem tied_owner_outlives_handleEvent_shared :
    ∃ s : Owners Unit Unit (Option Bool) (EPollPoller (ActiveChannel (Option Bool))) ℕ,
      s.life (some true) = .destroyed ∧ s.uses (some false) = 0 ∧
      s.loop.handling (.channel (some false)) = true ∧ s.life (some false) = .alive := by
  let D := ePollDemultiplexer sharedFd
  let start : Owners Unit Unit (Option Bool) (EPollPoller (ActiveChannel (Option Bool))) ℕ :=
    ⟨.fresh D, fun _ => false, fun _ => 1, none, fun _ => .alive⟩
  have hinit : (Owners.machine Unit Unit D sharedFd).init start :=
    ⟨Dispatcher.fresh_init D, fun _ => rfl, fun _ => Nat.one_pos, rfl, fun _ => rfl⟩
  obtain ⟨s, s', hs, hs', htied, hidle, hhandling, hdestroyed, huses⟩ : ∃ s s',
      (Owners.machine Unit Unit D sharedFd).Run start
        [.step (.call (.channel (some true)) (.change .enableReading)),
          .step (.call (.channel (some true)) (.change .disableAll)),
          .step (.call (.channel (some true)) .remove), .drop .loop (some true),
          .tie (some false), .step (.call (.channel (some false)) (.change .enableReading)),
          .step .enter, .step (.loop .test),
          .step (.poll (some [(1, .channel (some false))]))] s ∧
      (Owners.machine Unit Unit D sharedFd).Run s
        [.handleEvent (some false), .drop (.other ()) (some false)] s' ∧
      s.tied_ (some false) = true ∧ s.loop.handling (.channel (some false)) = false ∧
      s'.loop.handling (.channel (some false)) = true ∧ s'.life (some true) = .destroyed ∧
      s'.uses (some false) = 0 :=
    ⟨_, _, .cons (.step nofun (.call (.inr rfl) rfl rfl) rfl) <|
      .cons (.step nofun (.call (.inr rfl) rfl rfl) rfl) <|
      .cons (.step nofun (.call (.inr rfl) rfl rfl) rfl) <|
      .cons (.dropInLoop Nat.one_pos (.inr rfl) rfl) <| .cons (.tie rfl) <|
      .cons (.step nofun (.call (.inr rfl) rfl rfl) rfl) <|
      .cons (.step trivial (.enter rfl) rfl) <|
      .cons (.step trivial (.loop nofun (.test rfl)) rfl) <|
      .single (.step trivial (.poll rfl ⟨by decide, [5], by simp, .cons ⟨_, rfl⟩ .nil⟩ rfl) rfl),
      .cons (.handleEvent (.loop nofun (.handleEvent rfl)) rfl) <| .single (.drop Nat.one_pos),
      rfl, rfl, rfl, rfl, rfl⟩
  have hall := (tied_owner_outlives_handleEvent Unit Unit sharedFd).1 _ _ _ _ _ hinit hs hs'
  exact ⟨s', hdestroyed, huses, hhandling, (hall.1 _ htied hidle hhandling).2⟩

end Dxian
