import Dxian.Net.Poller.EPoll
import Dxian.Net.Poller.Poll

/-!
# Are the two pollers interchangeable?

`newDefaultPoller` picks one of the two pollers. A sequence of operations that
`EPollPoller` executes may fail an `assert` of `PollPoller`, for two reasons: the
`index_` of a removed channel is not reset, and the slot of a channel that has been
updated only once is not ignored by `poll`, even if the channel has no events.

## Main results

- `PollPoller.History` — what the past operations say about the slots
- `interchangeable_iff` — the sequences that both pollers execute alike
-/

namespace Dxian

open Transition

variable {Ch : Type} [DecidableEq Ch]

/-- How many operations of a list are on a channel. -/
def Channel.operations (v : List (Ch × Channel.Op)) (c : Ch) : ℕ := v.countP (·.1 = c)

@[simp] theorem Channel.operations_append_self (v : List (Ch × Channel.Op)) (c : Ch)
    (op : Channel.Op) : operations (v ++ [(c, op)]) c = operations v c + 1 := by
  simp [operations]

theorem Channel.operations_append_of_ne {c d : Ch} (h : d ≠ c) (v : List (Ch × Channel.Op))
    (op : Channel.Op) : operations (v ++ [(c, op)]) d = operations v d := by
  simp [operations, Ne.symm h]

/-- A channel is not enabled or disabled after it has been removed, and it is not
removed before it has been enabled or disabled twice. -/
def Interchangeable (v : List (Ch × Channel.Op)) : Ch × Channel.Op → Prop
  | (c, .change _) => (c, .remove) ∉ v
  | (c, .remove) => 2 ≤ Channel.operations v c

instance (v : List (Ch × Channel.Op)) : ∀ x, Decidable (Interchangeable v x)
  | (c, .change _) => inferInstanceAs (Decidable ((c, .remove) ∉ v))
  | (c, .remove) => inferInstanceAs (Decidable (2 ≤ Channel.operations v c))

namespace PollPoller

variable {fd : Ch ↪ ℕ} {s s' : PollerState Ch (PollPoller Ch)} {c : Ch}
  {v w : List (Ch × Channel.Op)}

/-- What the operations of the past say about the state. -/
structure History (fd : Ch ↪ ℕ) (v : List (Ch × Channel.Op))
    (s : PollerState Ch (PollPoller Ch)) : Prop where
  index_neg : ∀ c, (s.channel c).index < 0 ↔ Channel.operations v c = 0
  removed : ∀ c, (c, .remove) ∈ v ↔ 0 ≤ (s.channel c).index ∧ s.poller.channels (fd c) ≠ some c
  watched : ∀ c p, s.poller.channels (fd c) = some c → slot? s c = some p →
    (p.fd = fd c ↔ (s.channel c).events ≠ Channel.kNoneEvent ∨ Channel.operations v c = 1)

theorem History.fresh (fd : Ch ↪ ℕ) : History fd [] (pollPoller fd).fresh where
  index_neg c := by
    show ((-1 : ℤ) < 0) ↔ (0 = 0)
    decide
  removed c := by
    have hindex : ¬ (0 : ℤ) ≤ ((pollPoller fd).fresh.channel c).index := by
      show ¬ (0 : ℤ) ≤ -1
      decide
    simp [hindex]
  watched c p h := by
    cases h

/-- An operation on `c` says nothing about the other channels. -/
theorem History.snoc (h : History fd v s) (inv : Invariant fd s) {e : BitVec 32}
    {o : Option Ch} (hafter : After fd s c e o s') (op : Channel.Op)
    (hremoved : (c, .remove) ∈ v ++ [(c, op)] ↔ s'.poller.channels (fd c) ≠ some c)
    (hwatched : ∀ p, s'.poller.channels (fd c) = some c → slot? s' c = some p →
      (p.fd = fd c ↔ (s'.channel c).events ≠ Channel.kNoneEvent ∨ Channel.operations v c = 0)) :
    History fd (v ++ [(c, op)]) s' where
  index_neg d := by
    rw [hafter.index_neg d, h.index_neg d]
    by_cases hd : d = c
    · simp [hd]
    · simp [hd, Channel.operations_append_of_ne hd]
  removed d := by
    by_cases hd : d = c
    · have hindex : ¬ (s'.channel c).index < 0 := fun hneg => ((hafter.index_neg c).mp hneg).2 rfl
      rw [hd, hremoved]
      exact ⟨fun hne => ⟨by omega, hne⟩, And.right⟩
    · have hmem : (d, .remove) ∈ v ++ [(c, op)] ↔ (d, Channel.Op.remove) ∈ v := by simp [hd]
      have hneg := hafter.index_neg d
      rw [hmem, h.removed d, ne_eq, ne_eq, hafter.channels_of_ne hd]
      simp only [hd, ne_eq, not_false_eq_true, and_true] at hneg
      rw [← Int.not_lt, ← Int.not_lt, hneg]
  watched d p hd hp := by
    by_cases hdc : d = c
    · rw [hdc] at hd hp ⊢
      rw [hwatched p hd hp, Channel.operations_append_self]
      simp
    · rw [hafter.channels_of_ne hdc] at hd
      obtain ⟨q, hq, -⟩ := inv.slot d hd
      obtain rfl : q = p := Option.some.inj ((hafter.slot_other d q hdc hd hq).symm.trans hp)
      rw [h.watched d q hd hq, hafter.events_of_ne hdc, Channel.operations_append_of_ne hdc]

theorem History.not_removed (h : History fd v s)
    (hc : (s.channel c).index < 0 ∨ s.poller.channels (fd c) = some c) : (c, .remove) ∉ v := by
  intro hmem
  obtain ⟨hindex, hchannels⟩ := (h.removed c).mp hmem
  rcases hc with hneg | heq
  · omega
  · exact hchannels heq

/-- A registered channel has been operated on. -/
theorem History.operations_ne_zero (h : History fd v s) (inv : Invariant fd s)
    (hc : s.poller.channels (fd c) = some c) : Channel.operations v c ≠ 0 := by
  intro hzero
  obtain ⟨i, hi, -⟩ := inv.index_lt hc
  have hneg := (h.index_neg c).mpr hzero
  omega

theorem History.step {x : Ch × Channel.Op} (h : History fd v s) (inv : Invariant fd s)
    (hcall : (pollPoller fd).call s x = .ok s') : History fd (v ++ [x]) s' := by
  have heffect := inv.effect hcall
  cases heffect with
  | @new c x _ hindex hafter hslot =>
    have hc : s'.poller.channels (fd c) = some c := by rw [hafter.channels, Function.update_self]
    refine h.snoc inv hafter _ ?_ fun p _ hp => ?_
    · simp [hc, h.not_removed (.inl hindex)]
    · cases hslot.symm.trans hp
      exact ⟨fun _ => .inr ((h.index_neg c).mp hindex), fun _ => rfl⟩
  | @registered c x _ hchannels hafter hslot =>
    have hc : s'.poller.channels (fd c) = some c := by rw [hafter.channels, Function.update_self]
    refine h.snoc inv hafter _ ?_ fun p _ hp => ?_
    · simp [hc, h.not_removed (.inr hchannels)]
    · have hevents : (s'.channel c).events = x.apply (s.channel c).events := by
        rw [hafter.events, Function.update_self]
      cases hslot.symm.trans hp
      rw [hevents, or_iff_left (h.operations_ne_zero inv hchannels), slotOf]
      by_cases hnone : ((s.channel c).change x).isNoneEvent = true
      · have hne : -(fd c : ℤ) - 1 ≠ fd c := by omega
        have heq : x.apply (s.channel c).events = Channel.kNoneEvent :=
          Channel.isNoneEvent_iff.mp hnone
        simp [hnone, hne, heq]
      · have hne : x.apply (s.channel c).events ≠ Channel.kNoneEvent :=
          fun h => hnone (Channel.isNoneEvent_iff.mpr h)
        simp [hnone, hne]
  | @removed c p _ hchannels hevents hslot hfd hafter =>
    have hc : s'.poller.channels (fd c) = none := by rw [hafter.channels, Function.update_self]
    refine h.snoc inv hafter _ ?_ fun p hp _ => ?_
    · simp [hc]
    · cases hc.symm.trans hp

theorem History.of_run (h : (pollPoller fd).system.Run (pollPoller fd).fresh v s) :
    History fd v s := by
  induction h with
  | nil => exact History.fresh fd
  | snoc hrun hstep ih => exact ih.step ((refines fd).run hrun).1 hstep

/-- A sequence that `PollPoller` executes meets the condition. -/
theorem respects (h : (pollPoller fd).system.Run (pollPoller fd).fresh w s) :
    System.Respects Interchangeable w := by
  refine h.respects fun {v t x u} hv hstep => ?_
  have hist := History.of_run hv
  have heffect := ((refines fd).run hv).1.effect hstep
  cases heffect with
  | new hindex _ _ => exact hist.not_removed (.inl hindex)
  | registered hchannels _ _ => exact hist.not_removed (.inr hchannels)
  | @removed c p _ hchannels hevents hslot hfd _ =>
    have hops := hist.operations_ne_zero ((refines fd).run hv).1 hchannels
    have hone : Channel.operations v c ≠ 1 := fun h1 =>
      hfd ((hist.watched c p hchannels hslot).mpr (.inr h1))
    show 2 ≤ Channel.operations v c
    omega

/-- A registered channel can be changed, if the condition is met. -/
theorem exists_change (h : (pollPoller fd).system.Run (pollPoller fd).fresh v s)
    (hc : (c, .remove) ∉ v) (x : Channel.Change) :
    ∃ s', (pollPoller fd).call s (c, .change x) = .ok s' := by
  have inv := ((refines fd).run h).1
  by_cases hindex : (s.channel c).index < 0
  · obtain ⟨s', hcall, -⟩ := inv.call_new hindex (inv.channels_eq_none hindex) x
    exact ⟨s', hcall⟩
  · have hchannels : s.poller.channels (fd c) = some c := by
      by_contra hne
      exact hc (((History.of_run h).removed c).mpr ⟨by omega, hne⟩)
    obtain ⟨s', hcall, -⟩ := inv.call_registered hchannels x
    exact ⟨s', hcall⟩

/-- A registered channel without events can be removed, if the condition is met. -/
theorem exists_remove (h : (pollPoller fd).system.Run (pollPoller fd).fresh v s)
    (hc : 2 ≤ Channel.operations v c) (hchannels : s.poller.channels (fd c) = some c)
    (hevents : (s.channel c).events = Channel.kNoneEvent) :
    ∃ s', (pollPoller fd).call s (c, .remove) = .ok s' := by
  have inv := ((refines fd).run h).1
  obtain ⟨p, hp, -⟩ := inv.slot c hchannels
  have hfd : p.fd ≠ fd c := by
    intro heq
    rcases ((History.of_run h).watched c p hchannels hp).mp heq with hne | hone
    · exact hne hevents
    · omega
  obtain ⟨s', hcall, -⟩ := inv.call_remove hchannels hevents hp hfd
  exact ⟨s', hcall⟩

end PollPoller

/-- What both pollers have executed, they have registered alike. -/
theorem interest_eq {fd : Ch ↪ ℕ} {v : List (Ch × Channel.Op)}
    {s : PollerState Ch (EPollPoller Ch)} {s' : PollerState Ch (PollPoller Ch)}
    (h : (ePollPoller fd).system.Run (ePollPoller fd).fresh v s)
    (h' : (pollPoller fd).system.Run (pollPoller fd).fresh v s') :
    (ePollPoller fd).interest fd s = (pollPoller fd).interest fd s' := by
  rw [((EPollPoller.refines fd).run h).2, ((PollPoller.refines fd).run h').2]

/-- An operation that `EPollPoller` executes, `PollPoller` executes too, if the
condition is met. -/
theorem exists_call {fd : Ch ↪ ℕ} {v : List (Ch × Channel.Op)} {x : Ch × Channel.Op}
    {s t : PollerState Ch (EPollPoller Ch)} {s' : PollerState Ch (PollPoller Ch)}
    (h : (ePollPoller fd).system.Run (ePollPoller fd).fresh v s)
    (hstep : (ePollPoller fd).call s x = .ok t)
    (h' : (pollPoller fd).system.Run (pollPoller fd).fresh v s') (hx : Interchangeable v x) :
    ∃ t', (pollPoller fd).call s' x = .ok t' := by
  obtain ⟨c, op⟩ := x
  cases op with
  | change x => exact PollPoller.exists_change h' hx x
  | remove =>
    obtain ⟨hchannels, hevents⟩ := EPollPoller.of_call_remove hstep
    have hsame := interest_eq h h'
    refine PollPoller.exists_remove h' hx (of_decide_eq_true ?_) ?_
    · rw [← decide_eq_true hchannels]
      exact (congrFun (congrArg Interest.registered hsame) c).symm
    · rw [← hevents]
      exact (congrFun (congrArg Interest.events hsame) c).symm

/-- **Which sequences both pollers execute alike.** Let `EPollPoller` execute the
operations `w`. Then `PollPoller` executes them too, and after each of them
`hasChannel` answers the same for every channel, exactly if no channel is enabled or
disabled after it has been removed, nor removed before it has been enabled or disabled
twice. -/
theorem interchangeable_iff (fd : Ch ↪ ℕ) {w : List (Ch × Channel.Op)}
    {s : PollerState Ch (EPollPoller Ch)}
    (h : (ePollPoller fd).system.Run (ePollPoller fd).fresh w s) :
    (∀ v, v <+: w → ∃ t t', (ePollPoller fd).system.Run (ePollPoller fd).fresh v t ∧
      (pollPoller fd).system.Run (pollPoller fd).fresh v t' ∧
      ∀ c, (ePollPoller fd).hasChannel fd t c = (pollPoller fd).hasChannel fd t' c) ↔
    System.Respects Interchangeable w := by
  constructor
  · intro hall
    obtain ⟨_, s', _, hrun, _⟩ := hall w List.prefix_rfl
    exact PollPoller.respects hrun
  · intro hw v hv
    obtain ⟨t, ht⟩ := h.exists_of_prefix hv
    -- the operations are those that both conditions allow
    have hexec : System.Respects (fun v x => ∃ t u,
        (ePollPoller fd).system.Run (ePollPoller fd).fresh v t ∧
        (ePollPoller fd).call t x = .ok u) v :=
      ht.respects fun hrun hstep => ⟨_, _, hrun, hstep⟩
    obtain ⟨t', ht'⟩ := ((hw.of_prefix hv).and hexec).exists_run (M := (pollPoller fd).system)
      (s := (pollPoller fd).fresh) fun hrun ⟨hx, _, _, hrun', hstep⟩ =>
        exists_call hrun' hstep hrun hx
    have hsame := congrArg Interest.registered (interest_eq ht ht')
    exact ⟨t, t', ht, ht', congrFun hsame⟩

/-- Both pollers execute the usual life of a channel. -/
theorem interchangeable_iff_enable_disable_remove :
    ∃ t t', (ePollPoller (Function.Embedding.refl ℕ)).system.Run
        (ePollPoller (Function.Embedding.refl ℕ)).fresh
        [(3, .change .enableReading), (3, .change .disableAll), (3, .remove)] t ∧
      (pollPoller (Function.Embedding.refl ℕ)).system.Run
        (pollPoller (Function.Embedding.refl ℕ)).fresh
        [(3, .change .enableReading), (3, .change .disableAll), (3, .remove)] t' ∧
      ∀ c, (ePollPoller (Function.Embedding.refl ℕ)).hasChannel (Function.Embedding.refl ℕ) t c =
        (pollPoller (Function.Embedding.refl ℕ)).hasChannel (Function.Embedding.refl ℕ) t' c := by
  obtain ⟨s, hrun, -⟩ := Poller.exists_run (M := ePollPoller (Function.Embedding.refl ℕ))
    (w := [((3 : ℕ), Channel.Op.change .enableReading), (3, .change .disableAll), (3, .remove)])
    (Q := fun _ => true) (by decide)
  refine (interchangeable_iff (Function.Embedding.refl ℕ) hrun).mpr ?_ _ List.prefix_rfl
  have henable : System.Respects Interchangeable [((3 : ℕ), .change .enableReading)] :=
    System.respects_append_singleton.mpr ⟨System.respects_nil _, by decide⟩
  have hdisable := System.respects_append_singleton.mpr ⟨henable,
    show Interchangeable _ (3, .change .disableAll) by decide⟩
  exact System.respects_append_singleton.mpr ⟨hdisable, by decide⟩

/-- A channel that is enabled again after it has been removed: `EPollPoller` adds it
again, `PollPoller` fails an `assert`. -/
theorem reenabled_channel_fails :
    (∃ s, (ePollPoller (Function.Embedding.refl ℕ)).system.Run
      (ePollPoller (Function.Embedding.refl ℕ)).fresh
      [(3, .change .enableReading), (3, .change .disableAll), (3, .remove),
        (3, .change .enableReading)] s) ∧
    ¬ ∃ s, (pollPoller (Function.Embedding.refl ℕ)).system.Run
      (pollPoller (Function.Embedding.refl ℕ)).fresh
      [(3, .change .enableReading), (3, .change .disableAll), (3, .remove),
        (3, .change .enableReading)] s := by
  constructor
  · obtain ⟨s, hrun, -⟩ := Poller.exists_run (M := ePollPoller (Function.Embedding.refl ℕ))
      (w := [(3, .change .enableReading), (3, .change .disableAll), (3, .remove),
        (3, .change .enableReading)]) (Q := fun _ => true) (by decide)
    exact ⟨s, hrun⟩
  · exact Poller.not_run (by decide)

end Dxian
