import Dxian.Base.TimeZone.LocalTime

/-!
# Converting local times

`fromLocalTime` undoes `toLocalTime` where a local time is shown once. Where it is shown
twice or skipped, `postTransition` chooses between the two offsets; the early returns of
`findLocalTimeOf` miss the repeat at the first and the last transition and the skip at the
first one.

## Main results

- `local_time_round_trip` — a local time that is shown once
- `resolves_iff` — a local time that is shown twice or skipped
-/

namespace Dxian

namespace TimeZone

/-! ## Which period is picked -/

section Pick

open LocalClock

variable {c : LocalClock} {i : ℕ} {t L : ℤ} (postTransition : Bool)

/-- A time that one instant shows is found in its period. -/
theorem pick_eq_period (hunique : ∀ u, c.shown u = c.shown t → u = t) :
    Data.pick c (c.shown t) postTransition = c.period t := by
  have hshows := c.shows_period t
  have hle := c.period_le t
  have hpassed := c.passed_le (c.shown t)
  -- the time lies in no other period
  have hother : ∀ k, c.Shows k (c.shown t) → k = c.period t := fun k hk => hk.eq_period hunique
  have hge : c.period t ≤ c.passed (c.shown t) := by
    by_contra hlt
    have hleft := hshows.left (by omega)
    have hmem := (lt_passed_iff (c := c) (i := c.period t - 1) (by omega)).mpr hleft
    omega
  have hr : c.passed (c.shown t) = c.period t := by
    by_contra hne
    have hk : c.period t < c.size := by omega
    have hright := hshows.right hk
    have hnext : c.Shows (c.period t + 1) (c.shown t) := by
      refine ⟨by omega, fun _ => ?_, fun hlt => ?_⟩
      · exact (lt_passed_iff (c := c) hk).mp (by omega)
      · have haround := (around_lt (c := c) (show c.period t < c.period t + 1 by omega) hlt).1
        omega
    have heq := hother _ hnext
    omega
  by_cases hend : c.passed (c.shown t) = 0 ∨ c.passed (c.shown t) = c.size
  · rw [Data.pick_of_end _ hend, hr]
  · have hskip : ¬ c.before (c.passed (c.shown t)) ≤ c.shown t := by
      have hright := hshows.right (by omega)
      rw [hr]
      omega
    have hrepeat : ¬ (1 < c.passed (c.shown t) ∧
        c.shown t < c.before (c.passed (c.shown t) - 1)) := by
      rw [hr]
      intro h
      have hleft := hshows.left (by omega)
      have hprev : c.Shows (c.period t - 1) (c.shown t) := by
        refine ⟨by omega, fun hpos => ?_, fun _ => h.2⟩
        have haround := (around_lt (c := c) (show c.period t - 1 - 1 < c.period t - 1 by omega)
          (by omega)).2.2.2
        omega
      have heq := hother _ hprev
      omega
    rw [Data.pick_of_unique _ hend hskip hrepeat, hr]

/-- A time that is shown before and after a change lies between the two times around it. -/
theorem repeat_bounds {t₁ t₂ : ℤ} (hi : i < c.size) (h₁ : t₁ < c.instant i)
    (h₂ : c.instant i ≤ t₂) (hL₁ : c.shown t₁ = L) (hL₂ : c.shown t₂ = L) :
    c.after i ≤ L ∧ L < c.before i ∧ t₁ = L - c.offset i ∧ t₂ = L - c.offset (i + 1) := by
  have hshows₁ := c.shows_period t₁
  have hshows₂ := c.shows_period t₂
  have hlt₁ := mt (lt_period_iff (c := c) (t := t₁) hi).mp (by omega)
  have hlt₂ := (lt_period_iff (c := c) (t := t₂) hi).mpr h₂
  have hle₂ := c.period_le t₂
  rw [hL₁] at hshows₁
  rw [hL₂] at hshows₂
  have hright := hshows₁.right (by omega)
  have hleft := hshows₂.left (by omega)
  have hperiod₁ : c.period t₁ = i := by
    by_contra hne
    have haround := (around_lt (c := c) (show c.period t₁ < c.period t₂ - 1 by omega)
      (by omega)).2.1
    omega
  have hperiod₂ : c.period t₂ = i + 1 := by
    by_contra hne
    have haround := (around_lt (c := c) (show c.period t₁ < c.period t₂ - 1 by omega)
      (by omega)).2.1
    omega
  rw [hperiod₁] at hright
  rw [hperiod₂, show i + 1 - 1 = i by omega] at hleft
  rw [shown, hperiod₁] at hL₁
  rw [shown, hperiod₂] at hL₂
  exact ⟨hleft, hright, by omega, by omega⟩

/-- The times that a change skips. -/
theorem skip_bounds (hi : i < c.size) (h₁ : c.shown (c.instant i - 1) < L)
    (h₂ : L < c.shown (c.instant i)) : c.before i ≤ L ∧ L < c.after i := by
  have hperiod₁ : c.period (c.instant i - 1) = i := by
    refine period_eq (by omega) (fun hpos => ?_) fun _ => by omega
    have hlt := instant_lt (c := c) (show i - 1 < i by omega) hi
    omega
  have hperiod₂ : c.period (c.instant i) = i + 1 := by
    refine period_eq (by omega) (fun _ => ?_) fun hlt => c.increasing i hlt
    rw [show i + 1 - 1 = i by omega]
  rw [shown, hperiod₁] at h₁
  rw [shown, hperiod₂] at h₂
  unfold before after
  omega

theorem passed_of_repeat (hi : i < c.size) (hafter : c.after i ≤ L) (hbefore : L < c.before i) :
    c.passed L = i + 1 := by
  have hle := c.passed_le L
  have hmem := (lt_passed_iff (c := c) hi).mpr hafter
  by_contra hne
  have hnext := (lt_passed_iff (c := c) (L := L) (i := i + 1) (by omega)).mp (by omega)
  have haround := (around_lt (c := c) (show i < i + 1 by omega) (by omega)).2.1
  omega

theorem passed_of_skip (hi : i < c.size) (hbefore : c.before i ≤ L) (hafter : L < c.after i) :
    c.passed L = i := by
  have hle := c.passed_le L
  have hnot := mt (lt_passed_iff (c := c) (L := L) hi).mp (by omega)
  by_contra hne
  have haround := (around_lt (c := c) (show i - 1 < i by omega) hi).2.2.1
  have hmem := (lt_passed_iff (c := c) (L := L) (i := i - 1) (by omega)).mpr (by omega)
  omega

/-- What is picked for a time that a change repeats. -/
theorem pick_repeat (hi : i < c.size) (hafter : c.after i ≤ L) (hbefore : L < c.before i) :
    Data.pick c L postTransition =
      if postTransition = true ∨ ¬ (0 < i ∧ i + 1 < c.size) then i + 1 else i := by
  have hr := passed_of_repeat hi hafter hbefore
  by_cases hend : i + 1 = c.size
  · rw [Data.pick_of_end _ (.inr (hr.trans hend)), hr, if_pos (.inr (by omega))]
  · have hskip : ¬ c.before (c.passed L) ≤ L := by
      have haround := (around_lt (c := c) (show i < i + 1 by omega) (by omega)).1
      rw [hr]
      omega
    by_cases hfirst : i = 0
    · rw [Data.pick_of_unique _ (by omega) hskip (by omega), hr, if_pos (.inr (by omega))]
    · rw [Data.pick_of_repeat _ (by omega) hskip ⟨by omega, by rwa [hr]⟩, hr]
      have hmiddle : 0 < i ∧ i + 1 < c.size := by omega
      cases postTransition
      · simp [hmiddle]
      · rfl

/-- What is picked for a time that a change skips. -/
theorem pick_skip (hi : i < c.size) (hbefore : c.before i ≤ L) (hafter : L < c.after i) :
    Data.pick c L postTransition = if postTransition = true ∧ 0 < i then i + 1 else i := by
  have hr := passed_of_skip hi hbefore hafter
  by_cases hfirst : i = 0
  · rw [Data.pick_of_end _ (.inl (hr.trans hfirst)), hr, if_neg (by omega)]
  · rw [Data.pick_of_skip _ (by omega) (by rwa [hr]), hr]
    cases postTransition
    · rw [if_neg (by simp), if_neg (by simp)]
    · rw [if_pos rfl, if_pos ⟨rfl, by omega⟩]

end Pick

/-! ## The conversions -/

namespace Data

/-- The offset at a second: that of the last transition up to it, or else that of the first
local time type. -/
def offsetAt (data : Data) (t : ℤ) : ℤ :=
  match (data.transitions.filter fun trans => trans.utctime ≤ t).getLast? with
  | some last => data.utcOffset last.localtimeIdx
  | none => data.utcOffset 0

/-- The local time at a second, in seconds. -/
def shown (data : Data) (t : ℤ) : ℤ := t + data.offsetAt t

variable {data : Data}

/-- The transitions up to a second are the first ones. -/
theorem WellFormed.filter_eq_take (wf : data.WellFormed) (t : ℤ) :
    (data.transitions.filter fun trans => trans.utctime ≤ t) =
      data.transitions.take (wf.clock.period t) := by
  have hlt : ∀ i (hi : i < data.transitions.length),
      i < wf.clock.period t ↔ data.transitions[i].utctime ≤ t := by
    intro i hi
    rw [← instant_eq (List.getElem?_eq_getElem hi)]
    exact LocalClock.lt_period_iff hi
  have hfirst : ∀ a ∈ data.transitions.take (wf.clock.period t), a.utctime ≤ t := by
    intro a ha
    obtain ⟨i, hi, rfl⟩ := List.mem_take_iff_getElem.mp ha
    exact (hlt i (by omega)).mp (by omega)
  have hrest : ∀ a ∈ data.transitions.drop (wf.clock.period t), ¬ a.utctime ≤ t := by
    intro a ha
    obtain ⟨i, hi, rfl⟩ := List.mem_drop_iff_getElem.mp ha
    exact mt (hlt (wf.clock.period t + i) (by omega)).mpr (by omega)
  conv_lhs => rw [← List.take_append_drop (wf.clock.period t) data.transitions]
  rw [List.filter_append, List.filter_eq_self.mpr (by simpa using hfirst),
    List.filter_eq_nil_iff.mpr (by simpa using hrest), List.append_nil]

theorem WellFormed.offsetAt_eq (wf : data.WellFormed) (t : ℤ) :
    data.offsetAt t = data.offset (wf.clock.period t) := by
  have hle : wf.clock.period t ≤ data.transitions.length := wf.clock.period_le t
  rw [offsetAt, wf.filter_eq_take, List.getLast?_take]
  by_cases hzero : wf.clock.period t = 0
  · rw [if_pos hzero, hzero, offset]
  · obtain ⟨k, hk⟩ : ∃ k, wf.clock.period t = k + 1 := ⟨wf.clock.period t - 1, by omega⟩
    have htrans : data.transitions[k]? = some data.transitions[k] :=
      List.getElem?_eq_getElem (by omega)
    rw [if_neg hzero, hk, Nat.add_sub_cancel, htrans, Option.some_or, offset, htrans]
    rfl

/-- The local seconds before all transitions but the first one can be computed. -/
@[reducible] def SumsFit (data : Data) : Prop :=
  ∀ i, 0 < i → i < data.transitions.length → data.SumFits i

theorem SumsFit.priorsFit (h : data.SumsFit) (wf : data.WellFormed) (L : ℤ) : wf.PriorsFit L := by
  have hle : wf.clock.passed L ≤ data.transitions.length := wf.clock.passed_le L
  have hsize : wf.clock.size = data.transitions.length := rfl
  intro hend
  exact ⟨h _ (by omega) (by omega), fun _ hpos => h _ (by omega) (by omega)⟩

section PriorsFit

variable (wf : data.WellFormed) {i : ℕ} {L : ℤ} (hi : i < wf.clock.size)
include hi

/-- What is computed for a time that a transition repeats. -/
theorem WellFormed.priorsFit_repeat (hafter : wf.clock.after i ≤ L)
    (hbefore : L < wf.clock.before i) : wf.PriorsFit L ↔
      (i + 1 < wf.clock.size → data.SumFits (i + 1) ∧ (0 < i → data.SumFits i)) := by
  rw [PriorsFit, passed_of_repeat hi hafter hbefore, Nat.add_sub_cancel]
  constructor
  · intro h hlt
    have hnext := (LocalClock.around_lt (c := wf.clock) (show i < i + 1 by omega) hlt).1
    exact ⟨(h (by omega)).1, fun hpos => (h (by omega)).2 (by omega) (by omega)⟩
  · intro h hend
    exact ⟨(h (by omega)).1, fun _ hpos => (h (by omega)).2 (by omega)⟩

/-- What is computed for a time that a transition skips. -/
theorem WellFormed.priorsFit_skip (hbefore : wf.clock.before i ≤ L)
    (hafter : L < wf.clock.after i) : wf.PriorsFit L ↔ (0 < i → data.SumFits i) := by
  rw [PriorsFit, passed_of_skip hi hbefore hafter]
  constructor
  · intro h hpos
    exact (h (by omega)).1
  · intro h hend
    exact ⟨h (by omega), fun hlt => by omega⟩

end PriorsFit

theorem WellFormed.shown_eq (wf : data.WellFormed) (t : ℤ) : data.shown t = wf.clock.shown t := by
  rw [shown, wf.offsetAt_eq]
  rfl

end Data

theorem inRange64_of_inDateRange {n : ℤ} (h : InDateRange (julianDayOf n)) : CInt.InRange64 n := by
  unfold julianDayOf at h
  omega

/-- What `toLocalTime` computes. -/
theorem toLocalTime_eq {data : Data} (wf : data.WellFormed) {t : ℤ}
    (hrange : InDateRange (julianDayOf (data.shown t))) :
    ∃ dt, toLocalTime ⟨some data⟩ t = .ok (dt, data.offsetAt t) ∧
      fromUtcTime dt = .ok (data.shown t) := by
  obtain ⟨type, htype, hoffset⟩ := wf.findLocalTime_eq t
  obtain ⟨dt, hdt, -, hfrom⟩ := breakTime_fromUtcTime.1 _ hrange
  have hoffset' : type.utcOffset = data.offsetAt t := hoffset.trans (wf.offsetAt_eq t).symm
  have hsum := CInt.get64_eq Fault.overflow (inRange64_of_inDateRange hrange)
  rw [Data.shown] at hdt hsum
  refine ⟨dt, ?_, hfrom⟩
  simp only [toLocalTime, getData, htype, hoffset', hsum, hdt, bind, Except.bind, pure,
    Except.pure]

section FromLocalTime

variable {data : Data} (wf : data.WellFormed) {dt : DateTime} {L : ℤ}
  (hdt : fromUtcTime dt = .ok L) (postTransition : Bool)
include wf hdt

/-- What `fromLocalTime` computes. -/
theorem fromLocalTime_eq (hfits : wf.PriorsFit L) :
    fromLocalTime ⟨some data⟩ dt postTransition =
      .ok (L - data.offset (Data.pick wf.clock L postTransition)) := by
  obtain ⟨type, htype, hoffset⟩ := wf.findLocalTimeOf_eq hdt postTransition hfits
  simp only [fromLocalTime, getData, htype, hdt, hoffset, bind, Except.bind, pure, Except.pure]
  rfl

theorem fromLocalTime_overflow (hfits : ¬ wf.PriorsFit L) :
    fromLocalTime ⟨some data⟩ dt postTransition = .error .overflow := by
  have hoverflow := wf.findLocalTimeOf_overflow hdt postTransition hfits
  simp only [fromLocalTime, getData, hoverflow, bind, Except.bind]

theorem fromLocalTime_eq_iff (n : ℤ) : fromLocalTime ⟨some data⟩ dt postTransition = .ok n ↔
    L - data.offset (Data.pick wf.clock L postTransition) = n ∧ wf.PriorsFit L := by
  by_cases hfits : wf.PriorsFit L
  · rw [fromLocalTime_eq wf hdt postTransition hfits, Except.ok.injEq, and_iff_left hfits]
  · rw [fromLocalTime_overflow wf hdt postTransition hfits]
    exact iff_of_false nofun fun h => hfits h.2

end FromLocalTime

/-- **The round trip of a local time that is shown once.** `toLocalTime` reports the offset
of the last transition up to the second, and `fromLocalTime` finds the second again, if the
local seconds before the transitions are of type `int64_t`. -/
theorem local_time_round_trip {data : Data} (wf : data.WellFormed) {t : ℤ}
    (hrange : InDateRange (julianDayOf (data.shown t))) :
    ∃ dt, toLocalTime ⟨some data⟩ t = .ok (dt, data.offsetAt t) ∧
      (data.SumsFit → (∀ u, data.shown u = data.shown t → u = t) →
        ∀ postTransition, fromLocalTime ⟨some data⟩ dt postTransition = .ok t) := by
  obtain ⟨dt, hdt, hfrom⟩ := toLocalTime_eq wf hrange
  refine ⟨dt, hdt, fun hfits hunique postTransition => ?_⟩
  have hunique' : ∀ u, wf.clock.shown u = wf.clock.shown t → u = t := by
    intro u hu
    rw [← wf.shown_eq, ← wf.shown_eq] at hu
    exact hunique u hu
  rw [fromLocalTime_eq wf hfrom postTransition (hfits.priorsFit wf _), wf.shown_eq,
    pick_eq_period postTransition hunique', ← wf.shown_eq, ← wf.offsetAt_eq, Data.shown,
    Int.add_sub_cancel]

/-- A zone whose clock is set back by an hour at the end of 1969. -/
def setBack : Data :=
  { transitions := [⟨0, 0, 1⟩], localtimes := [⟨3600, true, 0⟩, ⟨0, false, 4⟩] }

theorem wellFormed_setBack : setBack.WellFormed where
  nonempty := by decide
  indices := by decide
  localtime := by decide
  increasing := by decide
  separated i hi := by
    simp [setBack] at hi

theorem shown_setBack (t : ℤ) : setBack.shown t = if 0 ≤ t then t else t + 3600 := by
  by_cases ht : 0 ≤ t
  · simp [Data.shown, Data.offsetAt, setBack, Data.utcOffset, ht]
  · simp [Data.shown, Data.offsetAt, setBack, Data.utcOffset, ht]

/-- Midnight a day after the clock has been set back. -/
theorem local_time_round_trip_1970 :
    ∃ dt, toLocalTime ⟨some setBack⟩ 86400 = .ok (dt, setBack.offsetAt 86400) ∧
      fromLocalTime ⟨some setBack⟩ dt false = .ok 86400 ∧
      fromLocalTime ⟨some setBack⟩ dt true = .ok 86400 := by
  have hrange : InDateRange (julianDayOf (setBack.shown 86400)) := by
    rw [shown_setBack]
    decide
  obtain ⟨dt, hdt, hfrom⟩ := local_time_round_trip wellFormed_setBack hrange
  have hunique : ∀ u, setBack.shown u = setBack.shown 86400 → u = 86400 := by
    intro u hu
    rw [shown_setBack 86400, if_pos (by decide), shown_setBack] at hu
    split at hu <;> omega
  have hfits : setBack.SumsFit := by
    intro i hpos hi
    have hlength : setBack.transitions.length = 1 := rfl
    omega
  exact ⟨dt, hdt, hfrom hfits hunique false, hfrom hfits hunique true⟩

/-- A zone whose last transition is near the end of `int64_t`. -/
def farAhead : Data where
  transitions := [⟨0, 3600, 0⟩, ⟨9223372036854775797, 9223372036854775797, 1⟩]
  localtimes := [⟨3600, false, 0⟩, ⟨0, false, 0⟩]

theorem wellFormed_farAhead : farAhead.WellFormed where
  nonempty := by decide
  indices := by decide
  localtime := by decide
  increasing := by decide
  separated i hi := by
    have hzero : i = 0 := by
      have hlength : farAhead.transitions.length = 2 := rfl
      omega
    rw [hzero]
    decide

theorem shown_farAhead (t : ℤ) :
    farAhead.shown t = if 9223372036854775797 ≤ t then t else t + 3600 := by
  by_cases hlate : 9223372036854775797 ≤ t
  · have hpos : 0 ≤ t := by omega
    simp [Data.shown, Data.offsetAt, farAhead, Data.utcOffset, hlate, hpos]
  · by_cases hpos : 0 ≤ t
    · simp [Data.shown, Data.offsetAt, farAhead, Data.utcOffset, hlate, hpos]
    · simp [Data.shown, Data.offsetAt, farAhead, Data.utcOffset, hlate, hpos]

/-- One o'clock on the second day of 1970 is shown once. The second before the last transition
is not an `int64_t` in local time. -/
theorem local_time_round_trip_overflow : farAhead.WellFormed ∧
    InDateRange (julianDayOf (farAhead.shown 86400)) ∧
    (∀ u, farAhead.shown u = farAhead.shown 86400 → u = 86400) ∧
    toLocalTime ⟨some farAhead⟩ 86400 = .ok (⟨1970, 1, 2, 1, 0, 0⟩, farAhead.offsetAt 86400) ∧
    fromLocalTime ⟨some farAhead⟩ ⟨1970, 1, 2, 1, 0, 0⟩ false = .error .overflow ∧
    fromLocalTime ⟨some farAhead⟩ ⟨1970, 1, 2, 1, 0, 0⟩ true = .error .overflow := by
  refine ⟨wellFormed_farAhead, by decide, fun u hu => ?_, rfl, rfl, rfl⟩
  rw [shown_farAhead 86400, if_neg (by decide), shown_farAhead] at hu
  split at hu <;> omega

/-- **A local time that is shown twice or skipped.** Around the transition `i` the local time
`L` is shown first at `t₁` and then at `t₂`: `postTransition` chooses between them exactly
if it is true or there are transitions before and after, and the local seconds before the next
transition and before this one, where they are needed, are of type `int64_t`. If `i` skips it,
`postTransition` chooses between the offsets exactly if it is false or there is a transition
before, and the local second before this one is of that type. -/
theorem resolves_iff {data : Data} (wf : data.WellFormed) {i : ℕ}
    (hi : i < data.transitions.length) {dt : DateTime} {L : ℤ} (hdt : fromUtcTime dt = .ok L)
    (postTransition : Bool) :
    (∀ t₁ t₂, t₁ < data.instant i → data.instant i ≤ t₂ → data.shown t₁ = L → data.shown t₂ = L →
      (fromLocalTime ⟨some data⟩ dt postTransition = .ok (if postTransition then t₂ else t₁) ↔
        (postTransition = true ∨ (0 < i ∧ i + 1 < data.transitions.length)) ∧
          (i + 1 < data.transitions.length →
            data.SumFits (i + 1) ∧ (0 < i → data.SumFits i)))) ∧
    (data.shown (data.instant i - 1) < L → L < data.shown (data.instant i) →
      (fromLocalTime ⟨some data⟩ dt postTransition =
          .ok (L - if postTransition then data.offset (i + 1) else data.offset i) ↔
        (postTransition = false ∨ 0 < i) ∧ (0 < i → data.SumFits i))) := by
  have hsize : wf.clock.size = data.transitions.length := rfl
  constructor
  · intro t₁ t₂ h₁ h₂ hL₁ hL₂
    rw [wf.shown_eq] at hL₁ hL₂
    obtain ⟨hafter, hbefore, ht₁, ht₂⟩ := repeat_bounds (c := wf.clock) hi h₁ h₂ hL₁ hL₂
    have hoffset₁ : t₁ = L - data.offset i := ht₁
    have hoffset₂ : t₂ = L - data.offset (i + 1) := ht₂
    rw [fromLocalTime_eq_iff wf hdt, wf.priorsFit_repeat hi hafter hbefore,
      pick_repeat postTransition hi hafter hbefore, hsize]
    refine and_congr_left' ?_
    by_cases hmiddle : 0 < i ∧ i + 1 < data.transitions.length
    · cases postTransition <;> simp [hmiddle, hoffset₁, hoffset₂]
    · cases postTransition
      · simp only [hmiddle, not_false_eq_true, or_true, if_true, Bool.false_eq_true, if_false,
          or_false, iff_false]
        omega
      · simp [hoffset₂]
  · intro h₁ h₂
    rw [wf.shown_eq] at h₁ h₂
    obtain ⟨hbefore, hafter⟩ := skip_bounds (c := wf.clock) hi h₁ h₂
    have hne : data.offset i < data.offset (i + 1) := by
      have hlt := Int.lt_of_le_of_lt hbefore hafter
      exact (Int.add_lt_add_iff_left _).mp hlt
    rw [fromLocalTime_eq_iff wf hdt, wf.priorsFit_skip hi hbefore hafter,
      pick_skip postTransition hi hbefore hafter]
    refine and_congr_left' ?_
    cases postTransition
    · simp
    · by_cases hpos : 0 < i
      · simp [hpos]
      · simp only [hpos, and_false, if_false, if_true, Bool.true_eq_false, or_false, iff_false]
        omega

/-- Half past midnight, shown for the second time. -/
theorem resolves_iff_second :
    fromLocalTime ⟨some setBack⟩ ⟨1970, 1, 1, 0, 30, 0⟩ true = .ok (if true then 1800 else -1800) ↔
      (true = true ∨ (0 < 0 ∧ 0 + 1 < setBack.transitions.length)) ∧
        (0 + 1 < setBack.transitions.length →
          setBack.SumFits (0 + 1) ∧ (0 < 0 → setBack.SumFits 0)) :=
  (resolves_iff wellFormed_setBack (i := 0) (by decide) (L := 1800) rfl true).1 (-1800) 1800
    (by decide) (by decide) (shown_setBack _) (shown_setBack _)

/-- `postTransition` chooses between the two seconds, or the two offsets, around every
transition. -/
def Resolves (data : Data) : Prop :=
  ∀ i < data.transitions.length, ∀ dt L, fromUtcTime dt = .ok L → ∀ postTransition,
    (∀ t₁ t₂, t₁ < data.instant i → data.instant i ≤ t₂ → data.shown t₁ = L → data.shown t₂ = L →
      fromLocalTime ⟨some data⟩ dt postTransition = .ok (if postTransition then t₂ else t₁)) ∧
    (data.shown (data.instant i - 1) < L → L < data.shown (data.instant i) →
      fromLocalTime ⟨some data⟩ dt postTransition =
        .ok (L - if postTransition then data.offset (i + 1) else data.offset i))

/-- Half past midnight, shown for the first time. -/
theorem setBack_not_resolved : ¬ ∀ data : Data, data.WellFormed → Resolves data := by
  intro hall
  have hfirst := (hall setBack wellFormed_setBack 0 (by decide) ⟨1970, 1, 1, 0, 30, 0⟩ 1800 rfl
    false).1 (-1800) 1800 (by decide) (by decide) (shown_setBack _) (shown_setBack _)
  have hcode : fromLocalTime ⟨some setBack⟩ ⟨1970, 1, 1, 0, 30, 0⟩ false = .ok 1800 := rfl
  rw [hcode] at hfirst
  cases hfirst

end TimeZone

end Dxian
