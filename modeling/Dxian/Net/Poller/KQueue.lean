import Dxian.Net.Poller.EPoll

/-!
# The poller over `kqueue`

On `__APPLE__` the kernel keeps two filters for a file descriptor, one for reading and one
for writing, and `index_` is one state for both. A filter is added only while the channel is
new or deleted; afterwards it is enabled, which the kernel refuses for a filter that was never
added. The map `channels_` is never written.

## Main results

- `Invariant.call_change` — what a change does to the filters
- `follows_iff` — the runs whose filters follow the channels
- `kqueue_registers_iff` — when this backend registers what `epoll` registers
-/

namespace Dxian

open Transition

/-- `EVFILT_READ` and `EVFILT_WRITE`. -/
inductive Filter
  | read
  | write
deriving DecidableEq

/-- The bit of `events_` that a filter stands for. -/
def Filter.event : Filter → BitVec 32
  | read => pollIn
  | write => pollOut

/-- `channel->events() & POLLIN`, `channel->events() & POLLOUT`. -/
def Channel.wants (events : BitVec 32) (d : Filter) : Bool := events &&& d.event != 0

/-- `EV_ADD`, `EV_DELETE`, `EV_ENABLE` and `EV_DISABLE`. -/
inductive KeventFlag
  | add
  | delete
  | enable
  | disable
deriving DecidableEq

/-- `class EPollPoller` on `__APPLE__`, and the kernel's queue: the filters of each file
descriptor that have been added, and whether they are enabled. -/
structure KQueuePoller (Ch : Type) where
  channels : ℕ → Option Ch
  filters : ℕ → Filter → Option Bool

namespace KQueuePoller

open EPollPoller (kNew kAdded kDeleted)
open Channel (wants)

/-- `kevent` with one change of a filter; `none` is the answer -1. -/
def kevent : KeventFlag → Option Bool → Option (Option Bool)
  | .add, _ => some (some true)
  | .enable, some _ => some (some true)
  | .disable, some _ => some (some false)
  | .delete, some _ => some none
  | _, none => none

variable {Ch : Type} (fd : Ch → ℕ)

/-- A state of the kernel with other filters for one file descriptor. -/
def setFilters (s : PollerState Ch (KQueuePoller Ch)) (k : ℕ) (f : Filter → Option Bool) :
    PollerState Ch (KQueuePoller Ch) :=
  { s with poller := { s.poller with filters := Function.update s.poller.filters k f } }

/-- `EV_SET` and `kevent`, whose answer is ignored. -/
def submit (s : PollerState Ch (KQueuePoller Ch)) (c : Ch) (d : Filter) (flag : KeventFlag) :
    PollerState Ch (KQueuePoller Ch) :=
  match kevent flag (s.poller.filters (fd c) d) with
  | some f => setFilters s (fd c) (Function.update (s.poller.filters (fd c)) d f)
  | none => s

variable [DecidableEq Ch]

/-- `EPollPoller::updateChannel` on `__APPLE__`. -/
def updateChannel (s : PollerState Ch (KQueuePoller Ch)) (c : Ch) :
    Except Fault (PollerState Ch (KQueuePoller Ch)) :=
  let index := (s.channel c).index
  let events := (s.channel c).events
  if index = kNew ∨ index = kDeleted then
    let s := if wants events .read then submit fd s c .read .add else s
    let s := if wants events .write then submit fd s c .write .add else s
    .ok (s.setIndex c kAdded)
  else if (s.channel c).isNoneEvent then
    if index = kAdded then
      let s := submit fd s c .read .delete
      let s := submit fd s c .write .delete
      .ok (s.setIndex c kDeleted)
    else .ok s
  else
    let s := submit fd s c .read (if wants events .read then .enable else .disable)
    .ok (submit fd s c .write (if wants events .write then .enable else .disable))

/-- `EPollPoller::removeChannel` on `__APPLE__`. -/
def removeChannel (s : PollerState Ch (KQueuePoller Ch)) (c : Ch) :
    Except Fault (PollerState Ch (KQueuePoller Ch)) := do
  let index := (s.channel c).index
  check (index == kAdded || index == kDeleted)
  let n := if (s.poller.channels (fd c)).isSome then 1 else 0
  let s : PollerState Ch (KQueuePoller Ch) := { s with poller := { s.poller with
    channels := Function.update s.poller.channels (fd c) none } }
  check (n == 1)
  let s :=
    if index = kAdded then
      let s := submit fd s c .read .delete
      submit fd s c .write .delete
    else s
  return s.setIndex c kNew

end KQueuePoller

/-- The `__APPLE__` branches of `EPollPoller` as a `Poller`. -/
def kQueuePoller {Ch : Type} [DecidableEq Ch] (fd : Ch → ℕ) : Poller Ch (KQueuePoller Ch) where
  empty := ⟨fun _ => none, fun _ _ => none⟩
  channels := KQueuePoller.channels
  updateChannel := KQueuePoller.updateChannel fd
  removeChannel := KQueuePoller.removeChannel fd

namespace KQueuePoller

open EPollPoller (kNew kAdded kDeleted)
open Channel (wants)

variable {Ch : Type} {fd : Ch → ℕ} {s s' : PollerState Ch (KQueuePoller Ch)} {c : Ch}

/-! ## What the operations do -/

/-- What becomes of a filter; a refused change has no effect. -/
def effect (flag : KeventFlag) (f : Option Bool) : Option Bool := (kevent flag f).getD f

@[simp] theorem effect_add (f : Option Bool) : effect .add f = some true := rfl

@[simp] theorem effect_delete (f : Option Bool) : effect .delete f = none := by
  cases f <;> rfl

@[simp] theorem effect_toggle (b : Bool) (f : Option Bool) :
    effect (if b then .enable else .disable) f = f.map fun _ => b := by
  cases b <;> cases f <;> rfl

section SetFilters

variable {k : ℕ} {f g : Filter → Option Bool}

@[simp] theorem setFilters_channel : (setFilters s k f).channel = s.channel := rfl

@[simp] theorem setFilters_filters :
    (setFilters s k f).poller.filters = Function.update s.poller.filters k f := rfl

@[simp] theorem setFilters_setFilters : setFilters (setFilters s k f) k g = setFilters s k g := by
  simp [setFilters]

theorem setFilters_self : setFilters s k (s.poller.filters k) = s := by
  simp [setFilters]

end SetFilters

theorem submit_eq (d : Filter) (flag : KeventFlag) : submit fd s c d flag =
    setFilters s (fd c) (Function.update (s.poller.filters (fd c)) d
      (effect flag (s.poller.filters (fd c) d))) := by
  rw [submit, effect]
  cases kevent flag (s.poller.filters (fd c) d) with
  | none => rw [Option.getD_none, Function.update_eq_self, setFilters_self]
  | some f => rfl

/-- The two changes of `updateChannel`, of which one may be left out. -/
theorem submit_add_if (b : Bool) (d : Filter) : (if b then submit fd s c d .add else s) =
    setFilters s (fd c) (Function.update (s.poller.filters (fd c)) d
      (if b then some true else s.poller.filters (fd c) d)) := by
  cases b with
  | true => exact submit_eq d .add
  | false => simp [setFilters_self]

theorem submit_submit (f g : KeventFlag) :
    submit fd (submit fd s c .read f) c .write g = setFilters s (fd c) fun
      | .read => effect f (s.poller.filters (fd c) .read)
      | .write => effect g (s.poller.filters (fd c) .write) := by
  rw [submit_eq, submit_eq, setFilters_setFilters]
  congr 1
  funext d
  cases d <;> simp

variable [DecidableEq Ch]

/-- A new or deleted channel: a filter is added for each direction that it wants. -/
theorem updateChannel_add (hindex : (s.channel c).index = kNew ∨ (s.channel c).index = kDeleted) :
    updateChannel fd s c = .ok ((setFilters s (fd c) fun d =>
      if wants (s.channel c).events d then some true else s.poller.filters (fd c) d).setIndex
        c kAdded) := by
  rw [updateChannel, if_pos hindex]
  dsimp only
  rw [submit_add_if, submit_add_if, setFilters_setFilters]
  congr 3
  funext d
  cases d <;> simp

/-- An added channel without events: both filters are deleted. -/
theorem updateChannel_delete (hindex : (s.channel c).index = kAdded)
    (hnone : (s.channel c).isNoneEvent = true) :
    updateChannel fd s c = .ok ((setFilters s (fd c) fun _ => none).setIndex c kDeleted) := by
  have hne : ¬ (kAdded = kNew ∨ kAdded = kDeleted) := by decide
  rw [updateChannel, hindex, if_neg hne, if_pos hnone, if_pos rfl]
  dsimp only
  rw [submit_submit]
  congr 3
  funext d
  cases d <;> simp

/-- An added channel with events: the filters that are there are enabled or disabled. -/
theorem updateChannel_toggle (hindex : (s.channel c).index = kAdded)
    (hevents : ¬ (s.channel c).isNoneEvent = true) :
    updateChannel fd s c = .ok (setFilters s (fd c) fun d =>
      (s.poller.filters (fd c) d).map fun _ => wants (s.channel c).events d) := by
  have hne : ¬ (kAdded = kNew ∨ kAdded = kDeleted) := by decide
  rw [updateChannel, hindex, if_neg hne, if_neg hevents]
  dsimp only
  rw [submit_submit]
  congr 2
  funext d
  cases d <;> simp

/-- `channels_` has no entry, so `n == 1` fails. -/
theorem removeChannel_fails (hchannels : s.poller.channels (fd c) = none) :
    removeChannel fd s c = .error .assertion := by
  rw [removeChannel, hchannels]
  cases hindex : (s.channel c).index == kAdded || (s.channel c).index == kDeleted with
  | true => rfl
  | false => rfl

/-! ## The filters and the channels -/

/-- The filters of every channel are enabled exactly for what it wants. -/
def FiltersFollow (fd : Ch → ℕ) (s : PollerState Ch (KQueuePoller Ch)) : Prop :=
  ∀ c d, s.poller.filters (fd c) d = some true ↔ wants (s.channel c).events d = true

/-- A channel is operated on that is added, and gets a direction that it did not want. -/
def TurnsOn (s : PollerState Ch (KQueuePoller Ch)) : Ch × Channel.Op → Prop
  | (c, .change x) => (s.channel c).index = kAdded ∧
      ∃ d, wants (x.apply (s.channel c).events) d = true ∧ wants (s.channel c).events d = false
  | (_, .remove) => False

/-- The invariant. -/
structure Invariant (s : PollerState Ch (KQueuePoller Ch)) : Prop where
  channels : ∀ k, s.poller.channels k = none
  index : ∀ c, (s.channel c).index = kAdded ∨
    ((s.channel c).index = kNew ∨ (s.channel c).index = kDeleted) ∧
      (s.channel c).events = Channel.kNoneEvent

/-- The index and the filters of a channel after a change of its events to `e`. -/
inductive Outcome (fd : Ch → ℕ) (s : PollerState Ch (KQueuePoller Ch)) (c : Ch)
    (e : BitVec 32) : ℤ → (Filter → Option Bool) → Prop
  | add (hindex : (s.channel c).index ≠ kAdded) : Outcome fd s c e kAdded
      fun d => if wants e d then some true else s.poller.filters (fd c) d
  | delete (hindex : (s.channel c).index = kAdded) (hnone : e = Channel.kNoneEvent) :
      Outcome fd s c e kDeleted fun _ => none
  | toggle (hindex : (s.channel c).index = kAdded) (hevents : e ≠ Channel.kNoneEvent) :
      Outcome fd s c e kAdded fun d => (s.poller.filters (fd c) d).map fun _ => wants e d

/-- The spec of a change. -/
theorem Invariant.call_change (inv : Invariant s) (fd : Ch → ℕ) (c : Ch) (x : Channel.Change) :
    ∃ y f, (kQueuePoller fd).call s (c, .change x) = .ok (setFilters (s.set c y) (fd c) f) ∧
      y.events = x.apply (s.channel c).events ∧ Outcome fd s c y.events y.index f := by
  let y : Channel := { (s.channel c).change x with addedToLoop := true }
  have hcall : (kQueuePoller fd).call s (c, .change x) = updateChannel fd (s.set c y) c :=
    Poller.call_change ..
  have hy : (s.set c y).channel c = y := Function.update_self ..
  rw [hcall]
  by_cases hadded : (s.channel c).index = kAdded
  · by_cases hnone : y.isNoneEvent = true
    · refine ⟨{ y with index := kDeleted }, fun _ => none, ?_, rfl, ?_⟩
      · rw [updateChannel_delete (by rw [hy]; exact hadded) (by rw [hy]; exact hnone)]
        simp [setFilters, PollerState.setIndex, PollerState.set]
      · exact .delete hadded (Channel.isNoneEvent_iff.mp hnone)
    · have hindex : y.index = kAdded := hadded
      refine ⟨y, fun d => (s.poller.filters (fd c) d).map fun _ => wants y.events d, ?_, rfl, ?_⟩
      · rw [updateChannel_toggle (by rw [hy]; exact hadded) (by rw [hy]; exact hnone), hy]
        rfl
      · rw [hindex]
        exact .toggle hadded (mt Channel.isNoneEvent_iff.mpr hnone)
  · have hindex := ((inv.index c).resolve_left hadded).1
    refine ⟨{ y with index := kAdded }, _, ?_, rfl, .add hadded⟩
    rw [updateChannel_add (by rw [hy]; exact hindex), hy]
    simp [setFilters, PollerState.setIndex, PollerState.set]

/-- A channel is never removed. -/
theorem Invariant.call_remove (inv : Invariant s) (c : Ch) :
    (kQueuePoller fd).call s (c, .remove) = .error .assertion := by
  by_cases hnone : (s.channel c).isNoneEvent = true
  · rw [Poller.call_remove _ hnone]
    exact removeChannel_fails (inv.channels _)
  · have hassert : (s.channel c).isNoneEvent = false := Bool.not_eq_true _ |>.mp hnone
    simp [Poller.call, Poller.remove, hassert, bind, Except.bind]

theorem Invariant.fresh : Invariant (kQueuePoller fd).fresh where
  channels _ := rfl
  index _ := .inr ⟨.inl rfl, rfl⟩

/-- **Preservation**: only changes succeed, and they keep the invariant. -/
theorem Invariant.step (inv : Invariant s) {a : Ch × Channel.Op}
    (h : (kQueuePoller fd).call s a = .ok s') : Invariant s' ∧ a.2 ≠ .remove := by
  obtain ⟨c, op⟩ := a
  cases op with
  | change x =>
    obtain ⟨y, f, hcall, -, hout⟩ := inv.call_change fd c x
    cases hcall.symm.trans h
    refine ⟨⟨inv.channels, fun d => ?_⟩, nofun⟩
    rw [setFilters_channel, PollerState.set_channel]
    by_cases hd : d = c
    · rw [hd, Function.update_self]
      generalize y.index = i at hout
      cases hout with
      | add => exact .inl rfl
      | delete _ hnone => exact .inr ⟨.inr rfl, hnone⟩
      | toggle => exact .inl rfl
    · rw [Function.update_of_ne hd]
      exact inv.index d
  | remove => cases (inv.call_remove c).symm.trans h

variable {v w : List (Ch × Channel.Op)}

theorem Invariant.of_run (h : (kQueuePoller fd).system.Run (kQueuePoller fd).fresh w s) :
    Invariant s ∧ ∀ a ∈ w, a.2 ≠ .remove :=
  h.emits (P := fun _ => True) (fun _ inv hstep => inv.step hstep) (fun _ _ => trivial) .fresh

/-- **Safety**: a list of operations without `remove` is executed, any other is not. -/
theorem exists_run_iff (fd : Ch → ℕ) (w : List (Ch × Channel.Op)) :
    (∃ s, (kQueuePoller fd).system.Run (kQueuePoller fd).fresh w s) ↔
      ∀ c, (c, Channel.Op.remove) ∉ w := by
  constructor
  · intro ⟨s, hrun⟩ c hmem
    exact (Invariant.of_run hrun).2 _ hmem rfl
  · intro hw
    induction w using List.reverseRecOn with
    | nil => exact ⟨_, .nil⟩
    | append_singleton w a ih =>
      obtain ⟨s, hrun⟩ := ih fun c hc => hw c (List.mem_append_left _ hc)
      obtain ⟨c, op⟩ := a
      cases op with
      | change x =>
        obtain ⟨y, f, hcall, -⟩ := (Invariant.of_run hrun).1.call_change fd c x
        exact ⟨_, hrun.snoc hcall⟩
      | remove => exact absurd (List.mem_append_right _ (List.mem_singleton_self _)) (hw c)

/-! ## Which runs the filters follow -/

/-- What holds as long as the filters follow: a channel wants one direction at most, and has
the filter of this direction only. -/
structure Following (fd : Ch → ℕ) (s : PollerState Ch (KQueuePoller Ch)) : Prop where
  filters : ∀ c d, s.poller.filters (fd c) d =
    if wants (s.channel c).events d then some true else none
  single : ∀ c, (s.channel c).events ≠ Channel.kReadEvent ||| Channel.kWriteEvent

omit [DecidableEq Ch] in
theorem Following.follow (h : Following fd s) : FiltersFollow fd s := by
  intro c d
  rw [h.filters]
  simp

theorem wants_none (d : Filter) : wants Channel.kNoneEvent d = false := by
  cases d <;> decide

theorem Following.fresh : Following fd (kQueuePoller fd).fresh where
  filters c d := by
    show none = if wants Channel.kNoneEvent d then _ else _
    rw [wants_none]
    rfl
  single _ := by
    show Channel.kNoneEvent ≠ _
    decide

/-- One change asks for one direction. -/
theorem apply_none_ne (x : Channel.Change) :
    x.apply Channel.kNoneEvent ≠ Channel.kReadEvent ||| Channel.kWriteEvent := by
  cases x <;> decide

/-- A change that gives no direction keeps the only one there is, or takes it. -/
theorem apply_eq_self {e : BitVec 32} (he : e ∈ Channel.masks)
    (hsingle : e ≠ Channel.kReadEvent ||| Channel.kWriteEvent) {x : Channel.Change}
    (hevents : x.apply e ≠ Channel.kNoneEvent)
    (h : ∀ d, wants (x.apply e) d = true → wants e d = true) : x.apply e = e := by
  have hread := h .read
  have hwrite := h .write
  obtain rfl | rfl | rfl | rfl := Channel.mem_masks.mp he <;> revert hevents hread hwrite <;>
    cases x <;> first | decide | exact absurd rfl hsingle

/-- A change of one channel is a change of its filters. -/
theorem Following.set {fd : Ch ↪ ℕ} (h : Following fd s) {y : Channel} {f : Filter → Option Bool}
    (hf : ∀ d, f d = if wants y.events d then some true else none)
    (hy : y.events ≠ Channel.kReadEvent ||| Channel.kWriteEvent) :
    Following fd (setFilters (s.set c y) (fd c) f) := by
  have hchannel : (setFilters (s.set c y) (fd c) f).channel = Function.update s.channel c y := rfl
  have hfilters : (setFilters (s.set c y) (fd c) f).poller.filters =
    Function.update s.poller.filters (fd c) f := rfl
  constructor
  · intro e d
    rw [hchannel, hfilters]
    by_cases he : e = c
    · rw [he, Function.update_self, Function.update_self, hf]
    · have hfd : fd e ≠ fd c := fun heq => he (fd.injective heq)
      rw [Function.update_of_ne he, Function.update_of_ne hfd, h.filters]
  · intro e
    rw [hchannel]
    by_cases he : e = c
    · rw [he, Function.update_self]
      exact hy
    · rw [Function.update_of_ne he]
      exact h.single e

/-- **Step**: a change that does not turn on a direction of an added channel. -/
theorem Following.step {fd : Ch ↪ ℕ} (h : Following fd s) (inv : Invariant s)
    {a : Ch × Channel.Op} (ha : ¬ TurnsOn s a) (hcall : (kQueuePoller fd).call s a = .ok s') :
    Following fd s' := by
  obtain ⟨c, op⟩ := a
  cases op with
  | remove => cases (inv.call_remove c).symm.trans hcall
  | change x =>
    obtain ⟨y, f, hcall', hevents, hout⟩ := inv.call_change fd c x
    cases hcall'.symm.trans hcall
    generalize y.index = i at hout
    cases hout with
    | add hindex =>
      have hnone := ((inv.index c).resolve_left hindex).2
      refine h.set (fun d => ?_) ?_
      · rw [h.filters, hnone, wants_none]
        rfl
      · rw [hevents, hnone]
        exact apply_none_ne x
    | delete hindex hnone =>
      refine h.set (fun d => ?_) ?_
      · rw [hnone, wants_none]
        rfl
      · rw [hnone]
        decide
    | toggle hindex hne =>
      have hwants : ∀ d, wants (x.apply (s.channel c).events) d = true →
          wants (s.channel c).events d = true := by
        intro d hd
        by_contra hoff
        exact ha ⟨hindex, d, hd, Bool.not_eq_true _ |>.mp hoff⟩
      have hsame : y.events = (s.channel c).events := by
        rw [hevents] at hne ⊢
        exact apply_eq_self (s.channel c).masked (h.single c) hne hwants
      refine h.set (fun d => ?_) ?_
      · rw [h.filters, hsame]
        cases wants (s.channel c).events d <;> rfl
      · rw [hsame]
        exact h.single c

/-- **Step**: a direction turned on at an added channel gets no filter. -/
theorem Following.not_follow (h : Following fd s) (inv : Invariant s) {a : Ch × Channel.Op}
    (ha : TurnsOn s a) (hcall : (kQueuePoller fd).call s a = .ok s') : ¬ FiltersFollow fd s' := by
  obtain ⟨c, op⟩ := a
  cases op with
  | remove => exact ha.elim
  | change x =>
    obtain ⟨hindex, d, hd, hoff⟩ := ha
    obtain ⟨y, f, hcall', hevents, hout⟩ := inv.call_change fd c x
    cases hcall'.symm.trans hcall
    intro hfollow
    have hself := hfollow c d
    rw [setFilters_filters, setFilters_channel, PollerState.set_channel, Function.update_self,
      Function.update_self, hevents] at hself
    have hf := hself.mpr hd
    generalize y.index = i at hout
    cases hout with
    | add hne => exact hne hindex
    | delete => cases hf
    | toggle =>
      have hnever : s.poller.filters (fd c) d = none := by
        rw [h.filters, hoff]
        rfl
      dsimp only at hf
      rw [hnever] at hf
      cases hf

/-- No operation so far has turned on a direction of an added channel. -/
def NotTurnedOn (fd : Ch ↪ ℕ) (v : List (Ch × Channel.Op)) (a : Ch × Channel.Op) : Prop :=
  ∀ s, (kQueuePoller fd).system.Run (kQueuePoller fd).fresh v s → ¬ TurnsOn s a

/-- The filters follow the channels after every operation of the list. -/
def Follows (fd : Ch ↪ ℕ) (w : List (Ch × Channel.Op)) : Prop :=
  ∀ v s, v <+: w → (kQueuePoller fd).system.Run (kQueuePoller fd).fresh v s → FiltersFollow fd s

theorem Following.of_run {fd : Ch ↪ ℕ}
    (hrun : (kQueuePoller fd).system.Run (kQueuePoller fd).fresh w s)
    (hw : System.Respects (NotTurnedOn fd) w) : Following fd s := by
  induction hrun with
  | nil => exact .fresh
  | snoc hrun hstep ih =>
    obtain ⟨hw, ha⟩ := System.respects_append_singleton.mp hw
    exact (ih hw).step (Invariant.of_run hrun).1 (ha _ hrun) hstep

theorem follows_iff (fd : Ch ↪ ℕ) (w : List (Ch × Channel.Op)) :
    Follows fd w ↔ System.Respects (NotTurnedOn fd) w := by
  constructor
  · intro h
    induction w using List.reverseRecOn with
    | nil => exact System.respects_nil _
    | append_singleton w a ih =>
      have hw := ih fun v s hv => h v s (hv.trans (List.prefix_append ..))
      refine System.respects_append_singleton.mpr ⟨hw, fun s hrun hon => ?_⟩
      have inv := (Invariant.of_run hrun).1
      -- the operation is executed, since it is not a `remove`
      obtain ⟨c, op⟩ := a
      cases op with
      | change x =>
        obtain ⟨y, f, hcall, -⟩ := inv.call_change fd c x
        have hfollow := h _ _ List.prefix_rfl (hrun.snoc hcall)
        exact (Following.of_run hrun hw).not_follow inv hon hcall hfollow
      | remove => exact hon
  · intro h v s hv hrun
    exact (Following.of_run hrun (h.of_prefix hv)).follow

end KQueuePoller

/-! ## The two backends -/

section Backends

variable {Ch : Type} [DecidableEq Ch] {fd : Ch ↪ ℕ} {w : List (Ch × Channel.Op)}

/-- Without `remove`, the registered channels are those that have been operated on. -/
theorem Interest.registered_after_iff (hw : ∀ c, (c, Channel.Op.remove) ∉ w) (c : Ch) :
    (after w).registered c = true ↔ ∃ op, (c, op) ∈ w := by
  induction w using List.reverseRecOn with
  | nil => exact iff_of_false nofun (by simp)
  | append_singleton w a ih =>
    have ih' := ih fun d hd => hw d (List.mem_append_left _ hd)
    rw [after_append_singleton]
    obtain ⟨d, op⟩ := a
    cases op with
    | change x =>
      show Function.update (after w).registered d true c = true ↔ _
      by_cases hc : c = d
      · rw [hc, Function.update_self]
        exact iff_of_true rfl ⟨.change x, by simp⟩
      · rw [Function.update_of_ne hc, ih']
        simp [hc]
    | remove => exact absurd (List.mem_append_right _ (List.mem_singleton_self _)) (hw d)

/-- No channel is ever found on `__APPLE__`. -/
theorem KQueuePoller.hasChannel_eq_false {s : PollerState Ch (KQueuePoller Ch)}
    (h : (kQueuePoller fd).system.Run (kQueuePoller fd).fresh w s) (c : Ch) :
    (kQueuePoller fd).hasChannel fd s c = false := by
  have hnone : s.poller.channels (fd c) = none := (Invariant.of_run h).1.channels _
  show decide (s.poller.channels (fd c) = some c) = false
  rw [hnone]
  rfl

theorem hasChannel_eq_iff {s : PollerState Ch (KQueuePoller Ch)}
    {t : PollerState Ch (EPollPoller Ch)}
    (hs : (kQueuePoller fd).system.Run (kQueuePoller fd).fresh w s)
    (ht : (ePollPoller fd).system.Run (ePollPoller fd).fresh w t) (c : Ch) :
    (kQueuePoller fd).hasChannel fd s c = (ePollPoller fd).hasChannel fd t c ↔
      ∀ op, (c, op) ∉ w := by
  have hafter := congrArg Interest.registered ((EPollPoller.refines fd).run ht).2
  have hlinux : (ePollPoller fd).hasChannel fd t c = (Interest.after w).registered c :=
    congrFun hafter c
  have hiff := Interest.registered_after_iff ((KQueuePoller.exists_run_iff fd w).mp ⟨s, hs⟩) c
  rw [KQueuePoller.hasChannel_eq_false hs, hlinux, ← not_exists, ← hiff, Bool.not_eq_true]
  exact eq_comm

/-- What the `__APPLE__` branch registers after each operation of the list, compared with
the `__linux__` branch: no `assert` fails, the filters follow and `hasChannel` is the same. -/
def RegistersAsEpoll (fd : Ch ↪ ℕ) (w : List (Ch × Channel.Op)) : Prop :=
  ∀ v, v ≠ [] → v <+: w → ∃ s, (kQueuePoller fd).system.Run (kQueuePoller fd).fresh v s ∧
    KQueuePoller.FiltersFollow fd s ∧
    ∀ t, (ePollPoller fd).system.Run (ePollPoller fd).fresh v t →
      ∀ c, (kQueuePoller fd).hasChannel fd s c = (ePollPoller fd).hasChannel fd t c

/-- **`kqueue` against `epoll`.** The whole promise is broken by every list that has an
operation. Its parts: the asserts hold as long as nothing is removed; the filters follow the
channels as long as no direction is turned on at a channel that is added without it;
`hasChannel` is right about the channels that have not been operated on. -/
theorem kqueue_registers_iff (fd : Ch ↪ ℕ) (w : List (Ch × Channel.Op)) :
    (RegistersAsEpoll fd w ↔ w = []) ∧
    ((∃ s, (kQueuePoller fd).system.Run (kQueuePoller fd).fresh w s) ↔
      ∀ c, (c, Channel.Op.remove) ∉ w) ∧
    (KQueuePoller.Follows fd w ↔ System.Respects (KQueuePoller.NotTurnedOn fd) w) ∧
    ∀ s t, (kQueuePoller fd).system.Run (kQueuePoller fd).fresh w s →
      (ePollPoller fd).system.Run (ePollPoller fd).fresh w t →
      ∀ c, (kQueuePoller fd).hasChannel fd s c = (ePollPoller fd).hasChannel fd t c ↔
        ∀ op, (c, op) ∉ w := by
  refine ⟨⟨fun h => ?_, fun h v hne hv => ?_⟩, KQueuePoller.exists_run_iff fd w,
    KQueuePoller.follows_iff fd w, fun s t hs ht => hasChannel_eq_iff hs ht⟩
  · cases w with
    | nil => rfl
    | cons a w =>
      -- the first operation registers its channel, but only with `epoll`
      obtain ⟨s, hs, -, hsame⟩ := h [a] nofun (by simp)
      obtain ⟨c, op⟩ := a
      cases op with
      | change x =>
        have inv := ((EPollPoller.refines fd).fresh).1
        obtain ⟨y, e, hcall, -⟩ := inv.call_change (inv.free c) x
        have ht : (ePollPoller fd).system.Run (ePollPoller fd).fresh [(c, .change x)] _ :=
          .single hcall
        have hnever := (hasChannel_eq_iff hs ht c).mp (hsame _ ht c)
        exact absurd (List.mem_singleton_self _) (hnever _)
      | remove =>
        have hremove := (KQueuePoller.exists_run_iff fd _).mp ⟨s, hs⟩ c
        exact absurd (List.mem_singleton_self _) hremove
  · rw [h] at hv
    exact absurd (List.prefix_nil.mp hv) hne

end Backends

/-- One operation. -/
theorem kqueue_registers_reading :
    ∃ s t, (kQueuePoller (Function.Embedding.refl ℕ)).system.Run
        (kQueuePoller (Function.Embedding.refl ℕ)).fresh [(5, .change .enableReading)] s ∧
      (ePollPoller (Function.Embedding.refl ℕ)).system.Run
        (ePollPoller (Function.Embedding.refl ℕ)).fresh [(5, .change .enableReading)] t ∧
      ∀ c, (kQueuePoller (Function.Embedding.refl ℕ)).hasChannel (Function.Embedding.refl ℕ) s c =
          (ePollPoller (Function.Embedding.refl ℕ)).hasChannel (Function.Embedding.refl ℕ) t c ↔
        ∀ op, (c, op) ∉ [(5, Channel.Op.change .enableReading)] := by
  obtain ⟨s, hs, -⟩ := Poller.exists_run (M := kQueuePoller (Function.Embedding.refl ℕ))
    (w := [(5, .change .enableReading)]) (Q := fun _ => true) (by decide)
  obtain ⟨t, ht, -⟩ := Poller.exists_run (M := ePollPoller (Function.Embedding.refl ℕ))
    (w := [(5, .change .enableReading)]) (Q := fun _ => true) (by decide)
  exact ⟨s, t, hs, ht, (kqueue_registers_iff (Function.Embedding.refl ℕ) _).2.2.2 s t hs ht⟩

/-- A channel that reads first and writes later has no filter for writing. -/
theorem kqueue_loses_writing : ¬ RegistersAsEpoll (Function.Embedding.refl ℕ)
    [(5, .change .enableReading), (5, .change .enableWriting)] := by
  intro h
  obtain ⟨s, hs, hfollow, -⟩ :=
    h [(5, .change .enableReading), (5, .change .enableWriting)] nofun List.prefix_rfl
  have hlost := Poller.of_run (Q := fun s => s.poller.filters 5 .write == none &&
    Channel.wants (s.channel 5).events .write) (by decide) hs
  obtain ⟨hnone, hwants⟩ := Bool.and_eq_true_iff.mp hlost
  have hfilter : s.poller.filters 5 .write = some true := (hfollow 5 .write).mpr hwants
  cases (beq_iff_eq.mp hnone).symm.trans hfilter

end Dxian
