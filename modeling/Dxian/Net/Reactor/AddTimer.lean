import Dxian.Net.Reactor.Invariant

/-!
# The result of `addTimer`

`addTimer` reads `timer->sequence()` after `runInLoop` has published the Timer.
On the loop thread nothing comes between the two. On another thread the loop may
run ahead: by the time of the read it may have inserted the Timer, fired it and,
if it does not repeat, deleted it.

## Main results

- `Effect.faithful` — what keeps the Timer of a call alive
- `addTimer_faithful_iff` — who may call `addTimer`, and with what interval
- `sequence_of_deleted_read` — a run in which the read goes to a deleted Timer
-/

namespace Dxian

open Transition

/-- The Timer and the interval of a call in progress. -/
def Adding.timer? : Adding → Option (ActiveTimer × Seconds)
  | idle => none
  | allocated a _ interval | published a _ interval => some (a, interval)

@[simp] theorem Adding.timer?_publish (x : Adding) : x.publish.timer? = x.timer? := by
  cases x <;> rfl

namespace Reactor

variable {T F C : Type*}

/-- An id that some thread can have. -/
def Known (s : Reactor T F C) (id : TimerId) : Prop :=
  id = .default ∨ ∃ a, (a, id) ∈ s.returned

/-- The calls to `addTimer` that are in progress have their Timers to themselves:
nobody can cancel them yet, and only those of the loop thread may be one-shot. -/
structure Faithful (s : Reactor T F C) : Prop where
  safe : ∀ t a i, (s.adding t).timer? = some (a, i) → t = .loop ∨ i.positive = true
  live : ∀ t a i, (s.adding t).timer? = some (a, i) →
    ∃ u, s.timers.queue.mem.timerAt a.timer = some u ∧ u.sequence = a.sequence ∧ u.interval = i
  inj : ∀ t t' a i i', (s.adding t).timer? = some (a, i) → (s.adding t').timer? = some (a, i') →
    t = t'
  unread : ∀ t a i, (s.adding t).timer? = some (a, i) → ∀ id, (a, id) ∉ s.returned
  returned : ∀ a id, (a, id) ∈ s.returned → id.toActive = a
  queued : ∀ id, .cancelInLoop id ∈ s.loop.outstanding → s.Known id
  canceling : s.timers.phase ≠ .idle →
    ∀ b ∈ s.timers.queue.cancelingTimers, ∃ id, s.Known id ∧ b = id.toActive

/-- No id leads to the Timer of a call in progress. -/
theorem Faithful.ne_of_known {s : Reactor T F C} (hs : Faithful s) {t : Thread T}
    {a : ActiveTimer} {i : Seconds} (ha : (s.adding t).timer? = some (a, i)) {id : TimerId}
    (hid : s.Known id) : id.toActive ≠ a := by
  intro heq
  rcases hid with rfl | ⟨b, hb⟩
  · obtain ⟨u, hu, -⟩ := hs.live t a i ha
    have hnull : a.timer = nullptr := by rw [← heq]; rfl
    exact (s.timers.queue.mem.placed hu).1 hnull
  · obtain rfl : b = a := (hs.returned b id hb).symm.trans heq
    exact hs.unread t b i ha id hb

/-- The steps of threads that call `addTimer` as `Allowed` says. -/
def Action.Within (Allowed : Thread T → Timestamp → Seconds → Prop) : Action T F C → Prop
  | newTimer t _ when interval => Allowed t when interval
  | _ => True

/-- Timers are added on the loop thread or repeat. -/
def OnLoopOrRepeating (t : Thread T) (_ : Timestamp) (interval : Seconds) : Prop :=
  t = .loop ∨ interval.positive = true

variable [DecidableEq T]

section Step

variable {s s' : Reactor T F C} {x : Action T F C}

/-- Where a call in progress comes from. -/
theorem Action.timer?_of {t : Thread T} {a : ActiveTimer} {i : Seconds}
    (h : (x.addingAfter s t).timer? = some (a, i)) :
    (s.adding t).timer? = some (a, i) ∧ (∀ b id, x ≠ .readSequence t b id) ∨
      ∃ when, x = .newTimer t a.timer when i ∧
        a.sequence = s.timers.queue.mem.numCreated + 1 := by
  rcases x.addingAfter_cases s t with ⟨heq, -, hread⟩ | ⟨p, when, interval, hx, heq⟩ |
    ⟨b, clock, hx, heq⟩ | ⟨b, id, -, heq⟩
  · exact .inl ⟨by rwa [heq] at h, hread⟩
  · rw [heq] at h
    cases h
    exact .inr ⟨when, hx, rfl⟩
  · rw [heq, Adding.timer?_publish] at h
    exact .inl ⟨h, by simp [hx]⟩
  · rw [heq] at h
    cases h

theorem Effect.known_mono (h : Effect s x s') {id : TimerId} (hid : s.Known id) : s'.Known id := by
  refine hid.imp_right fun ⟨a, ha⟩ => ⟨a, ?_⟩
  rw [h.returned]
  cases x with
  | readSequence => exact List.mem_cons_of_mem _ ha
  | _ => exact ha

/-- Only ids that are known are cancelled. -/
theorem Effect.known_of_cancel (h : Effect s x s') (hs : Faithful s) {id : TimerId}
    (hx : x.timerLabel = some (.cancelInLoop id)) : s.Known id := by
  have hguard := h.guard
  have hfifo := h.outstanding_eq
  cases x with
  | cancel t id' =>
    cases t with
    | loop => cases hx; exact hguard.2
    | other t => cases hx
  | runFunctor f clock =>
    cases f with
    | cancelInLoop id' =>
      cases hx
      refine hs.queued id ?_
      have hmem : LoopFunctor.cancelInLoop id ∈ s.loop.outstanding ++ [] := by
        rw [show s.loop.outstanding ++ [] = [.cancelInLoop id] ++ s'.loop.outstanding from hfifo]
        exact List.mem_append_left _ (List.mem_singleton_self _)
      simpa using hmem
    | _ => cases hx
  | publish t => cases t <;> cases hx
  | _ => cases hx

/-- **Step lemma**: nothing deletes the Timer of a call in progress. -/
theorem Effect.live (h : Effect s x s') (inv : Invariant s) (hs : Faithful s) {t : Thread T}
    {a : ActiveTimer} {i : Seconds} (ha : (s.adding t).timer? = some (a, i)) :
    ∃ u, s'.timers.queue.mem.timerAt a.timer = some u ∧ u.sequence = a.sequence ∧
      u.interval = i := by
  obtain ⟨u, hu, hseq, hinterval⟩ := hs.live t a i ha
  rcases h.timers_cases inv with ⟨-, heq⟩ | ⟨y, hy, heff⟩
  · exact ⟨u, by rwa [heq], hseq, hinterval⟩
  · have hcancel : y ≠ .cancelInLoop ⟨a.timer, u.sequence⟩ := by
      rintro rfl
      refine hs.ne_of_known ha (h.known_of_cancel hs hy) ?_
      rw [hseq]
      rfl
    have hreset : ∀ clock, y = .reset clock → ∀ it ∈ s.timers.phase.batch, it.timer = a.timer →
        s.timers.queue.Kept it u := by
      rintro clock rfl it hit htimer
      -- `reset` is a step of the loop thread, which is not inside `addTimer` then
      have hready : s.adding .loop = .idle := by
        have hguard := h.guard
        cases x with
        | reset => exact hguard.1
        | publish t => cases t <;> cases hy
        | cancel t => cases t <;> cases hy
        | runFunctor f => cases f <;> cases hy
        | _ => cases hy
      have hpos : i.positive = true := by
        refine (hs.safe t a i ha).resolve_left ?_
        rintro rfl
        rw [hready] at ha
        cases ha
      refine ⟨by rw [Timer.repeats, hinterval, hpos], fun hcancel => ?_⟩
      have hphase : s.timers.phase ≠ .idle := by
        intro hidle
        simp [hidle, TimerQueue.Phase.batch] at hit
      obtain ⟨id, hid, heq⟩ := hs.canceling hphase _ hcancel
      refine hs.ne_of_known ha hid ?_
      rw [← heq, htimer, hseq]
    obtain ⟨v, hv, hvseq, hvinterval⟩ := heff.live_of_live hu hcancel hreset
    exact ⟨v, hv, hvseq.trans hseq, hvinterval.trans hinterval⟩

omit [DecidableEq T] in
/-- A Timer that is just being constructed has not been heard of. -/
theorem Invariant.unread_of_new (inv : Invariant s) {a : ActiveTimer}
    (hseq : a.sequence = s.timers.queue.mem.numCreated + 1) (id : TimerId) :
    (a, id) ∉ s.returned := by
  intro hret
  rcases inv.returned a id hret with hdel | ⟨-, hin | hadd⟩
  · have hle := s.timers.queue.mem.deleted_numbered _ hdel
    omega
  · have hle := inv.timers.handed_numbered hin
    omega
  · obtain ⟨-, u, hu, huseq⟩ := inv.onItsWay a (.inl hadd)
    have hle := s.timers.queue.mem.numbered hu
    omega

theorem Effect.timer_inj (h : Effect s x s') (hs : Faithful s) {t t' : Thread T}
    {a : ActiveTimer} {i i' : Seconds} (ha : (s'.adding t).timer? = some (a, i))
    (ha' : (s'.adding t').timer? = some (a, i')) : t = t' := by
  rw [h.adding] at ha ha'
  -- a new Timer has a new number
  have hnew : ∀ {u j}, (s.adding u).timer? = some (a, j) →
      a.sequence ≠ s.timers.queue.mem.numCreated + 1 := by
    intro u j hu heq
    obtain ⟨v, hv, hvseq, -⟩ := hs.live u a j hu
    have hle := s.timers.queue.mem.numbered hv
    omega
  rcases Action.timer?_of ha with ⟨hold, -⟩ | ⟨when, hx, hseq⟩
  · rcases Action.timer?_of ha' with ⟨hold', -⟩ | ⟨when', -, hseq⟩
    · exact hs.inj t t' a i i' hold hold'
    · exact absurd hseq (hnew hold)
  · rcases Action.timer?_of ha' with ⟨hold', -⟩ | ⟨when', hx', -⟩
    · exact absurd hseq (hnew hold')
    · rw [hx] at hx'
      cases hx'
      rfl

theorem Effect.unread (h : Effect s x s') (inv : Invariant s) (hs : Faithful s) {t : Thread T}
    {a : ActiveTimer} {i : Seconds} (ha : (s'.adding t).timer? = some (a, i)) (id : TimerId) :
    (a, id) ∉ s'.returned := by
  rw [h.adding] at ha
  rw [h.returned]
  rcases Action.timer?_of ha with ⟨hold, hnot⟩ | ⟨when, hx, hseq⟩
  · have hunread := hs.unread t a i hold id
    cases x with
    | readSequence t' b id' =>
      rw [Action.returnedAfter, List.mem_cons, not_or]
      refine ⟨fun heq => ?_, hunread⟩
      obtain ⟨rfl, rfl⟩ : a = b ∧ id = id' := by simpa using heq
      obtain ⟨-, ⟨when', interval', hpub⟩, -⟩ := h.guard
      obtain rfl := hs.inj t t' a i interval' hold (by rw [hpub]; rfl)
      exact hnot a id rfl
    | _ => exact hunread
  · rw [hx]
    exact inv.unread_of_new hseq id

/-- The result of a read is the pair that was assigned. -/
theorem Effect.toActive_of_returned (h : Effect s x s') (hs : Faithful s) {a : ActiveTimer}
    {id : TimerId} (hret : (a, id) ∈ s'.returned) : id.toActive = a := by
  rcases h.mem_returned hret with hret | ⟨t, when, interval, u, hpub, hu, rfl⟩
  · exact hs.returned a id hret
  · obtain ⟨v, hv, hseq, -⟩ := hs.live t a interval (by rw [hpub]; rfl)
    cases hu.symm.trans hv
    rw [TimerId.toActive, hseq]

theorem Effect.known_of_queued (h : Effect s x s') (hs : Faithful s) {id : TimerId}
    (hin : .cancelInLoop id ∈ s'.loop.outstanding) : s.Known id := by
  have hmem : .cancelInLoop id ∈ s.loop.outstanding ++ x.pushed := by
    rw [h.outstanding_eq]
    exact List.mem_append_right _ hin
  rcases List.mem_append.mp hmem with hin | hpushed
  · exact hs.queued id hin
  · have hguard := h.guard
    cases x with
    | cancel t id' =>
      cases t with
      | loop => cases hpushed
      | other t => cases List.mem_singleton.mp hpushed; exact hguard.2
    | publish t => cases t with
      | loop => cases hpushed
      | other t => cases List.mem_singleton.mp hpushed
    | queueInLoop => cases List.mem_singleton.mp hpushed
    | loop y =>
      have hnone : y.pushed = [] := (Internal.pushed hguard.2.2).1
      rw [show Action.pushed (.loop y) = y.pushed from rfl, hnone] at hpushed
      cases hpushed
    | _ => cases hpushed

/-- **Step lemma.** -/
theorem Effect.faithful (h : Effect s x s') (inv : Invariant s) (hx : x.Within OnLoopOrRepeating)
    (hs : Faithful s) : Faithful s' where
  safe t a i ha := by
    rw [h.adding] at ha
    rcases Action.timer?_of ha with ⟨hold, -⟩ | ⟨when, rfl, -⟩
    · exact hs.safe t a i hold
    · exact hx
  live t a i ha := by
    rw [h.adding] at ha
    rcases Action.timer?_of ha with ⟨hold, -⟩ | ⟨when, rfl, hseq⟩
    · exact h.live inv hs hold
    · have htimers := h.timers
      generalize s'.timers = timers at htimers
      cases htimers with
      | newTimer hfree => exact ⟨_, Memory.new_timerAt_self hfree, hseq.symm, rfl⟩
  inj _ _ _ _ _ ha ha' := h.timer_inj hs ha ha'
  unread _ _ _ ha := h.unread inv hs ha
  returned _ _ := h.toActive_of_returned hs
  queued _ hin := h.known_mono (h.known_of_queued hs hin)
  canceling hphase b hb := by
    have hold : ∃ id, s.Known id ∧ b = id.toActive := by
      rcases h.timers_cases inv with ⟨-, heq⟩ | ⟨y, hy, heff⟩
      · rw [heq] at hphase hb
        exact hs.canceling hphase b hb
      · rcases heff.mem_canceling hphase hb with ⟨hphase', hb'⟩ | ⟨id, rfl, rfl⟩
        · exact hs.canceling hphase' b hb'
        · exact ⟨id, h.known_of_cancel hs hy, rfl⟩
    obtain ⟨id, hid, heq⟩ := hold
    exact ⟨id, h.known_mono hid, heq⟩

end Step

theorem faithful_init {s : Reactor T F C} (h : (machine T F C).init s) : Faithful s := by
  obtain ⟨⟨hpc, -, -, hpending, -⟩, -, hidle, hadding, hreturned⟩ := h
  have hnone : ∀ t a i, (s.adding t).timer? ≠ some (a, i) := by
    intro t a i ha
    rw [hadding t] at ha
    cases ha
  refine ⟨fun t a i ha => absurd ha (hnone t a i), fun t a i ha => absurd ha (hnone t a i),
    fun t t' a i i' ha => absurd ha (hnone t a i), fun t a i ha => absurd ha (hnone t a i),
    fun a id hret => (hreturned _ hret).1, fun id hin => ?_, fun hne => absurd hidle hne⟩
  simp [EventLoop.outstanding, hpc, hpending, EventLoop.Pc.rest] at hin

/-- **Run lemma.** -/
theorem run_faithful {s₀ s : Reactor T F C} {w : List (Action T F C)} (h₀ : (machine T F C).init s₀)
    (h : (machine T F C).Run s₀ w s) (hw : ∀ x ∈ w, x.Within OnLoopOrRepeating) : Faithful s := by
  refine (h.preserves (I := fun s => (machine T F C).Reachable s ∧ Faithful s) ?_ hw
    ⟨.of_init h₀, faithful_init h₀⟩).2
  intro s x s' hx hs hstep
  exact ⟨hs.1.step hstep,
    (reachable_effect hs.1 hstep).faithful (reachable_invariant hs.1) hx hs.2⟩

/-! ## What a read finds -/

/-- Every call that reads its Timer's number now reads a Timer that is alive, and
returns the pair that was assigned when the Timer was constructed. -/
def ReadsFaithfully (s : Reactor T F C) : Prop :=
  ∀ t a id r, (machine T F C).step s (.readSequence t a id) r →
    ∃ s', r = .ok s' ∧ id.toActive = a

theorem Faithful.readsFaithfully {s : Reactor T F C} (hs : Faithful s) : s.ReadsFaithfully := by
  intro t a id r hstep
  cases hstep with
  | @readSequence _ _ when interval _ _ hadd hcall hid hr =>
    obtain ⟨u, hu, hseq, -⟩ := hs.live t a interval (by rw [hadd]; rfl)
    have hderef := Memory.deref_of_live hu
    rw [hderef] at hr
    refine ⟨_, hr.symm, ?_⟩
    rw [hid u hderef, TimerId.toActive, hseq]

/-- A call that is about to read a Timer that is gone. -/
theorem not_readsFaithfully {s : Reactor T F C} {t : Thread T} {a : ActiveTimer}
    {when : Timestamp} {interval : Seconds} (hadd : s.adding t = .published a when interval)
    (hcall : s.loop.calling t = .returned) (hdel : s.timers.Deleted a) : ¬ s.ReadsFaithfully := by
  intro hreads
  cases hu : s.timers.queue.mem.timerAt a.timer with
  | none =>
    have hderef : s.timers.queue.mem.deref a.timer = .error .useAfterFree := by
      rw [Memory.deref, hu]
    obtain ⟨s', hr, -⟩ := hreads t a .default (.error .useAfterFree)
      (.readSequence hadd hcall (fun u hu' => by rw [hderef] at hu'; cases hu')
        (by rw [hderef]; rfl))
    cases hr
  | some u =>
    -- another Timer lives there by now
    have hderef := Memory.deref_of_live hu
    obtain ⟨s', -, ha⟩ := hreads t a ⟨a.timer, u.sequence⟩ _
      (.readSequence hadd hcall (fun v hv => by rw [Except.ok.inj (hderef.symm.trans hv)])
        (by rw [hderef]))
    refine s.timers.queue.mem.deleted_dead hu ?_
    rw [show u.sequence = a.sequence from congrArg ActiveTimer.sequence ha]
    exact hdel

/-! ## The loop may run ahead of a call -/

section RunAhead

/-- The callbacks of a batch, in the reactor. -/
theorem run_timers {s : Reactor T F C} {τ : TimerQueue.State} {w : List TimerQueue.Action}
    (hready : s.LoopReady) (h : TimerQueue.machine.Run s.timers w τ)
    (hw : ∀ x ∈ w, ∃ a, x = .run a) :
    ∃ v, (machine T F C).Run s v { s with timers := τ } ∧ ∀ x ∈ v, ∃ a, x = .runTimer a := by
  induction h with
  | nil => exact ⟨[], .nil, by simp⟩
  | @snoc w τ₁ τ₂ x hrun hstep ih =>
    obtain ⟨v, hv, hall⟩ := ih fun x hx => hw x (List.mem_append_left _ hx)
    obtain ⟨a, rfl⟩ := hw x (List.mem_append_right _ (List.mem_singleton_self _))
    have hlast : (machine T F C).step { s with timers := τ₁ } (.runTimer a)
        (.ok { s with timers := τ₂ }) :=
      Step.runTimer (s := { s with timers := τ₁ }) hready hstep
    refine ⟨v ++ [.runTimer a], hv.snoc hlast, ?_⟩
    intro y hy
    rcases List.mem_append.mp hy with hy | hy
    · exact hall y hy
    · exact ⟨a, List.mem_singleton.mp hy⟩

variable {n : ℕ} {c : Thread T → EventLoop.Call} {adding : Thread T → Adding}
  {ret : List (ActiveTimer × TimerId)} {τ τ' : TimerQueue.State}

/-- A loop at `pc` that nobody has asked to quit. -/
abbrev turning (n : ℕ) (c : Thread T → EventLoop.Call) (adding : Thread T → Adding)
    (ret : List (ActiveTimer × TimerId)) (pc : EventLoop.Pc (LoopFunctor F) (LoopChannel C))
    (functors : List (LoopFunctor F)) (τ : TimerQueue.State) : Reactor T F C where
  loop := ⟨false, pc.inFunctors, functors, n, pc, c⟩
  timers := τ
  adding := adding
  returned := ret

/-- A turn of the loop that runs the one functor `f`. -/
theorem run_turn {f : LoopFunctor F} {clock : Timestamp} (hadding : adding .loop = .idle)
    (hc : c .loop = .returned) (hτ : τ.phase = .idle) (hτ' : τ'.phase = .idle)
    (hexec : (turning (C := C) n c adding ret (.running (some f) []) [] τ).exec f clock =
      .ok (turning n c adding ret (.running (some f) []) [] τ')) :
    (machine T F C).Run (turning n c adding ret .testing [f] τ)
      [.loop .test, .loop (.poll []), .loop .doPendingFunctors, .loop .swap,
        .runFunctor f clock, .loop .finishFunctor, .loop .finishFunctors]
      (turning n c adding ret .testing [] τ') :=
  .cons (.loop ⟨hadding, hc⟩ hτ trivial (.test rfl)) <|
  .cons (.loop ⟨hadding, hc⟩ hτ trivial (.poll rfl)) <|
  .cons (.loop ⟨hadding, hc⟩ hτ trivial (.doPendingFunctors rfl)) <|
  .cons (.loop ⟨hadding, hc⟩ hτ trivial (.swap rfl)) <|
  .cons (.runFunctor ⟨hadding, hc⟩ rfl hexec) <|
  .cons (.loop ⟨hadding, hc⟩ hτ' trivial (.finishFunctor rfl hc)) <|
  .single (.loop ⟨hadding, hc⟩ hτ' trivial (.finishFunctors rfl))

/-- A turn of the loop that finds the timerfd readable, up to the end of the batch. -/
theorem run_batch {now clock : Timestamp} {τ₁ τ₂ : TimerQueue.State}
    {w : List TimerQueue.Action} (hadding : adding .loop = .idle) (hc : c .loop = .returned)
    (hτ : τ.phase = .idle) (hread : TimerQueue.Step τ (.handleRead now) (.ok τ₁))
    (hrun : TimerQueue.machine.Run τ₁ w τ₂) (hw : ∀ x ∈ w, ∃ a, x = .run a)
    (hreset : TimerQueue.Step τ₂ (.reset clock) (.ok τ')) :
    ∃ v, (machine T F C).Run (turning n c adding ret .testing [] τ) v
      (turning n c adding ret (.handling (some .timerfdChannel) []) [] τ') ∧
      ∀ Allowed, ∀ x ∈ v, x.Within Allowed := by
  have hready : ∀ pc σ, (turning (F := F) (C := C) n c adding ret pc [] σ).LoopReady :=
    fun _ _ => ⟨hadding, hc⟩
  obtain ⟨v, hv, hall⟩ := run_timers (hready (.handling (some .timerfdChannel) []) τ₁) hrun hw
  have hstart : (machine T F C).Run (turning n c adding ret .testing [] τ)
      [.loop .test, .loop (.poll [.channel .timerfdChannel]), .handleRead now]
      (turning n c adding ret (.handling (some .timerfdChannel) []) [] τ₁) :=
    .cons (.loop (hready .testing τ) hτ trivial (.test rfl)) <|
    .cons (.loop (hready .polling τ) hτ trivial (.poll rfl)) <|
    .single (.handleRead (hready (.handling none [.channel .timerfdChannel]) τ) rfl hread)
  have hend : (machine T F C).step
      (turning n c adding ret (.handling (some .timerfdChannel) []) [] τ₂) (.reset clock)
      (.ok (turning n c adding ret (.handling (some .timerfdChannel) []) [] τ')) :=
    Step.reset (hready (.handling (some .timerfdChannel) []) τ₂) hreset
  refine ⟨_, hstart.append (hv.snoc hend), fun Allowed x hx => ?_⟩
  simp only [List.mem_append, List.mem_cons, List.not_mem_nil, or_false] at hx
  rcases hx with (rfl | rfl | rfl) | hx | rfl
  · trivial
  · trivial
  · trivial
  · obtain ⟨a, rfl⟩ := hall x hx
    trivial
  · trivial

end RunAhead

/-- A thread that adds a one-shot timer may be overtaken: the loop inserts the
Timer, fires it and deletes it before the thread reads the number. -/
theorem exists_unfaithful_read (t : T) (when : Timestamp) {interval : Seconds}
    (hrep : interval.positive = false) : ∃ w s, (machine T F C).Run (fresh T F C) w s ∧
      (∀ x ∈ w, x.Within fun u v i => u = .other t ∧ v = when ∧ i = interval) ∧
      ¬ s.ReadsFaithfully := by
  have hfree : Memory.empty.Free 8 := by decide
  let a : ActiveTimer := ⟨8, 1⟩
  let τ : TimerQueue.State := ⟨.empty (Memory.empty.new 8 when interval hfree), .idle, []⟩
  -- the thread is between `runInLoop` and the read
  let c : Thread T → EventLoop.Call :=
    Function.update (Function.update (fun _ => .returned) (.other t) .queueInLoop) (.other t)
      .returned
  let adding : Thread T → Adding :=
    Function.update (Function.update (fun _ => .idle) (.other t) (.allocated a when interval))
      (.other t) (.published a when interval)
  have hcaller : c (.other t) = .returned := Function.update_self ..
  have hc : c .loop = .returned := by simp [c]
  have hpublished : adding (.other t) = .published a when interval := Function.update_self ..
  have hadding : adding .loop = .idle := by simp [adding]
  have hstart : (machine T F C).Run (fresh T F C)
      [.newTimer (.other t) 8 when interval, .publish (.other t) a when, .wakeup (.other t)]
      (turning 1 c adding [] .testing [.addTimerInLoop a] τ) :=
    .cons (.newTimer ⟨rfl, rfl, by simp⟩ hfree) <|
    .cons (.publish (Function.update_self ..) rfl rfl) <|
    .single (.wakeup fun h => nomatch (Function.update_self ..).symm.trans h)
  -- the loop inserts the Timer
  have hs₁ := (System.Reachable.of_init (fresh_init T F C)).run hstart
  have inv := reachable_invariant hs₁
  obtain ⟨τ₁, hadd, hexec⟩ := inv.exec_add (a := a)
    (.inl (mem_adds.mpr (List.mem_singleton_self _))) trivial when
  have heff := TimerQueue.Step.effect_of_ok inv.timers hadd
  have hidle : τ₁.phase = .idle := heff.phase_of_quiet trivial
  have hexec' := exec_withLoop (turning 1 c adding [] .testing [.addTimerInLoop a] τ)
    (⟨false, true, [], 1, .running (some (.addTimerInLoop a)) [], c⟩ :
      EventLoop T (LoopFunctor F) (LoopChannel C)) (.addTimerInLoop a) when
  rw [hexec] at hexec'
  have hturn := run_turn (n := 1) hadding hc (show τ.phase = .idle from rfl) hidle hexec'
  -- and deletes it
  have hlive : τ₁.queue.mem.timerAt 8 = some ⟨when, interval, 1⟩ := by
    rw [heff.of_add.2]
    exact Memory.new_timerAt_self hfree
  obtain ⟨τ₂, v, τ₃, τ₄, hread, hrun, hv, hreset, hdel⟩ := TimerQueue.exists_deleting_batch
    (timerProjection.reachable (hs₁.run hturn)) hidle hlive heff.of_add.1 hrep when
  obtain ⟨v', hbatch, hwithin⟩ := run_batch hadding hc hidle hread hrun hv hreset
  refine ⟨_, _, hstart.append (hturn.append hbatch), ?_,
    not_readsFaithfully hpublished hcaller hdel⟩
  refine List.forall_mem_append.mpr ⟨?_, List.forall_mem_append.mpr ⟨?_, hwithin _⟩⟩
  · simp [Action.Within]
  · simp [Action.Within]

/-- **The result of `addTimer`.** Let threads call `addTimer` as `Allowed` says. That
every such call, in every run, reads the number of a Timer that is alive, and returns
the pair that was assigned when the Timer was constructed, comes down to this: the
timers that are added from other threads repeat. -/
theorem addTimer_faithful_iff (Allowed : Thread T → Timestamp → Seconds → Prop) :
    (∀ (s₀ s : Reactor T F C) (w : List (Action T F C)), (machine T F C).init s₀ →
      (machine T F C).Run s₀ w s → (∀ x ∈ w, x.Within Allowed) → s.ReadsFaithfully) ↔
      ∀ t when interval, Allowed t when interval → t = .loop ∨ interval.positive = true := by
  constructor
  · intro hall t when interval hallowed
    cases t with
    | loop => exact .inl rfl
    | other t =>
      by_contra hnot
      have hrep : interval.positive = false := by simpa using hnot
      obtain ⟨w, s, hrun, hw, hread⟩ := exists_unfaithful_read (F := F) (C := C) t when hrep
      refine hread (hall _ s w (fresh_init T F C) hrun fun x hx => ?_)
      have hwithin := hw x hx
      cases x with
      | newTimer u p v i =>
        obtain ⟨rfl, rfl, rfl⟩ := hwithin
        exact hallowed
      | _ => trivial
  · intro hsafe s₀ s w h₀ hrun hw
    refine (run_faithful h₀ hrun fun x hx => ?_).readsFaithfully
    have hwithin := hw x hx
    cases x with
    | newTimer t p when interval => exact hsafe t when interval hwithin
    | _ => trivial

/-- A thread adds a one-shot timer; the loop deletes the Timer before the read. -/
theorem sequence_of_deleted_read : ¬ ∀ (s₀ s : Reactor Unit Unit Unit)
    (w : List (Action Unit Unit Unit)), (machine Unit Unit Unit).init s₀ →
    (machine Unit Unit Unit).Run s₀ w s → s.ReadsFaithfully := by
  intro hclaim
  obtain ⟨s, hrun, hP⟩ := exists_run (s := fresh Unit Unit Unit)
    (w := [.newTimer (.other ()) 8 ⟨100⟩ .zero, .publish (.other ()) ⟨8, 1⟩ ⟨50⟩,
      .wakeup (.other ()), .loop .test, .loop (.poll []), .loop .doPendingFunctors, .loop .swap,
      .runFunctor (.addTimerInLoop ⟨8, 1⟩) ⟨50⟩, .loop .finishFunctor, .loop .finishFunctors,
      .loop .test, .loop (.poll [.channel .timerfdChannel]), .handleRead ⟨100⟩,
      .runTimer ⟨8, 1⟩, .reset ⟨100⟩])
    (P := fun s => s.adding (.other ()) = .published ⟨8, 1⟩ ⟨100⟩ .zero &&
      s.loop.calling (.other ()) = .returned && (1 ∈ s.timers.queue.mem.deleted)) (by decide)
  simp only [Bool.and_eq_true, decide_eq_true_eq] at hP
  obtain ⟨⟨hadd, hcall⟩, hdel⟩ := hP
  exact not_readsFaithfully hadd hcall hdel (hclaim _ s _ (fresh_init _ _ _) hrun)

end Reactor

end Dxian
