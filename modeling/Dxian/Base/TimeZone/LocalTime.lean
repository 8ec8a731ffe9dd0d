import Dxian.Base.TimeZone.Data
import Dxian.Lib.LocalClock

/-!
# Local times

A time zone is a clock whose offset changes at its transitions. `findLocalTime` finds
the period of a second, `findLocalTimeOf` one of the periods in which a local time is
shown, or one next to the gap that it lies in.

## Main results

- `WellFormed.findLocalTime_eq`, `WellFormed.findLocalTimeOf_eq` — what the look-ups find
- `WellFormed.findLocalTimeOf_overflow` — the look-ups that overflow
-/

namespace Dxian

namespace TimeZone

namespace Data

/-- The offset of a local time type. -/
def utcOffset (data : Data) (idx : ℕ) : ℤ := (data.localtimes[idx]?.map (·.utcOffset)).getD 0

/-- The second of a transition. -/
def instant (data : Data) (i : ℕ) : ℤ := (data.transitions[i]?.map (·.utctime)).getD 0

/-- The offset before the first transition, then those that the transitions lead to. -/
def offset (data : Data) : ℕ → ℤ
  | 0 => data.utcOffset 0
  | i + 1 => (data.transitions[i]?.map fun trans => data.utcOffset trans.localtimeIdx).getD 0

/-- Data with transitions in order, well apart from each other. -/
structure WellFormed (data : Data) : Prop where
  nonempty : data.localtimes ≠ []
  indices : ∀ trans ∈ data.transitions, trans.localtimeIdx < data.localtimes.length
  localtime : ∀ trans ∈ data.transitions,
    trans.localtime = trans.utctime + data.utcOffset trans.localtimeIdx
  increasing : data.transitions.Pairwise (·.utctime < ·.utctime)
  separated : ∀ i, i + 1 < data.transitions.length →
    max (data.instant i + data.offset i) (data.instant i + data.offset (i + 1)) <
      min (data.instant (i + 1) + data.offset (i + 1))
        (data.instant (i + 1) + data.offset (i + 1 + 1))

theorem instant_eq {data : Data} {i : ℕ} {trans : Transition}
    (h : data.transitions[i]? = some trans) : data.instant i = trans.utctime := by
  rw [instant, h]
  rfl

/-- The clock of the time zone. -/
def WellFormed.clock {data : Data} (wf : data.WellFormed) : LocalClock where
  size := data.transitions.length
  instant := data.instant
  offset := data.offset
  increasing i hi := by
    rw [instant_eq (List.getElem?_eq_getElem (by omega)), instant_eq (List.getElem?_eq_getElem hi)]
    exact List.pairwise_iff_getElem.mp wf.increasing i (i + 1) (by omega) hi (by omega)
  separated := wf.separated

variable {data : Data}

/-- The members of a transition and its local time type. -/
theorem WellFormed.lookup (wf : data.WellFormed) {i : ℕ} (hi : i < data.transitions.length) :
    ∃ trans type, index data.transitions i = .ok trans ∧
      index data.localtimes trans.localtimeIdx = .ok type ∧
      trans.utctime = wf.clock.instant i ∧ type.utcOffset = wf.clock.offset (i + 1) := by
  have htrans : data.transitions[i]? = some data.transitions[i] := List.getElem?_eq_getElem hi
  have hidx := wf.indices _ (List.getElem_mem hi)
  have htype := List.getElem?_eq_getElem hidx
  refine ⟨_, _, index_eq htrans, index_eq htype, (instant_eq htrans).symm, ?_⟩
  show _ = data.offset (i + 1)
  rw [offset, htrans, Option.map_some, Option.getD_some, utcOffset, htype]
  rfl

/-- The first local time type. -/
theorem WellFormed.lookup_front (wf : data.WellFormed) :
    ∃ type, index data.localtimes 0 = .ok type ∧ type.utcOffset = wf.clock.offset 0 := by
  have hpos : 0 < data.localtimes.length := List.length_pos_iff.mpr wf.nonempty
  have htype := List.getElem?_eq_getElem hpos
  refine ⟨_, index_eq htype, ?_⟩
  show _ = data.offset 0
  rw [offset, utcOffset, htype]
  rfl

theorem WellFormed.localtime_eq (wf : data.WellFormed) {i : ℕ}
    (hi : i < data.transitions.length) : data.transitions[i].localtime = wf.clock.after i := by
  have htrans : data.transitions[i]? = some data.transitions[i] := List.getElem?_eq_getElem hi
  have hinstant : data.instant i = data.transitions[i].utctime := instant_eq htrans
  have hoffset : data.offset (i + 1) = data.utcOffset data.transitions[i].localtimeIdx := by
    rw [offset, htrans]
    rfl
  rw [wf.localtime _ (List.getElem_mem hi), ← hinstant, ← hoffset]
  rfl

/-! ## The searches -/

theorem WellFormed.sorted_utctime (wf : data.WellFormed) (t : ℤ) :
    data.transitions.Pairwise fun a b =>
      decide (t < a.utctime) = true → decide (t < b.utctime) = true := by
  refine wf.increasing.imp fun {a b} hab => ?_
  rw [decide_eq_true_eq, decide_eq_true_eq]
  omega

theorem WellFormed.sorted_localtime (wf : data.WellFormed) (L : ℤ) :
    data.transitions.Pairwise fun a b =>
      decide (L < a.localtime) = true → decide (L < b.localtime) = true := by
  refine List.pairwise_iff_getElem.mpr fun i j hi hj hij => ?_
  have hlt := (LocalClock.around_lt (c := wf.clock) hij hj).2.2.2
  rw [decide_eq_true_eq, decide_eq_true_eq, wf.localtime_eq hi, wf.localtime_eq hj]
  omega

/-- The position that the search over `utctime` finds. -/
theorem WellFormed.upperBound_utctime (wf : data.WellFormed) (t : ℤ) :
    BinarySearch.upperBound (fun trans => decide (t < trans.utctime)) data.transitions =
      wf.clock.period t := by
  refine LocalClock.eq_of_lt_iff (BinarySearch.upperBound_le ..) (wf.clock.period_le t)
    fun i hi => ?_
  have htrans : data.transitions[i]? = some data.transitions[i] := List.getElem?_eq_getElem hi
  have hinstant : wf.clock.instant i = data.transitions[i].utctime := instant_eq htrans
  rw [BinarySearch.lt_upperBound_iff (wf.sorted_utctime t) htrans, LocalClock.lt_period_iff hi,
    hinstant, decide_eq_false_iff_not, Int.not_lt]

/-- The position that the search over `localtime` finds. -/
theorem WellFormed.upperBound_localtime (wf : data.WellFormed) (L : ℤ) :
    BinarySearch.upperBound (fun trans => decide (L < trans.localtime)) data.transitions =
      wf.clock.passed L := by
  refine LocalClock.eq_of_lt_iff (BinarySearch.upperBound_le ..) (wf.clock.passed_le L)
    fun i hi => ?_
  have htrans : data.transitions[i]? = some data.transitions[i] := List.getElem?_eq_getElem hi
  rw [BinarySearch.lt_upperBound_iff (wf.sorted_localtime L) htrans, LocalClock.lt_passed_iff hi,
    wf.localtime_eq hi, decide_eq_false_iff_not, Int.not_lt]

/-- The early returns. -/
theorem WellFormed.early_utctime (wf : data.WellFormed) (t : ℤ) :
    data.transitions.head?.all (fun front => decide (t < front.utctime)) = true ↔
      wf.clock.period t = 0 := by
  rw [← wf.upperBound_utctime, BinarySearch.upperBound_eq_zero_iff (wf.sorted_utctime t)]

theorem WellFormed.early_localtime (wf : data.WellFormed) (L : ℤ) :
    data.transitions.head?.all (fun front => decide (L < front.localtime)) = true ↔
      wf.clock.passed L = 0 := by
  rw [← wf.upperBound_localtime, BinarySearch.upperBound_eq_zero_iff (wf.sorted_localtime L)]

/-- **The look-up of a second** finds its period. -/
theorem WellFormed.findLocalTime_eq (wf : data.WellFormed) (t : ℤ) :
    ∃ type, data.findLocalTime t = .ok type ∧
      type.utcOffset = wf.clock.offset (wf.clock.period t) := by
  have hle : wf.clock.period t ≤ data.transitions.length := wf.clock.period_le t
  rw [findLocalTime, wf.upperBound_utctime]
  by_cases hearly : wf.clock.period t = 0
  · obtain ⟨type, htype, hoffset⟩ := wf.lookup_front
    rw [if_pos ((wf.early_utctime t).mpr hearly), hearly]
    exact ⟨type, htype, hoffset⟩
  · obtain ⟨trans, type, htrans, htype, -, hoffset⟩ :=
      wf.lookup (i := wf.clock.period t - 1) (by omega)
    rw [show wf.clock.period t - 1 + 1 = wf.clock.period t by omega] at hoffset
    have hassert : (wf.clock.period t != 0) = true := bne_iff_ne.mpr hearly
    refine ⟨type, ?_, hoffset⟩
    rw [if_neg (mt (wf.early_utctime t).mp hearly)]
    simp only [hassert, check_true, bind, Except.bind]
    by_cases hend : wf.clock.period t = data.transitions.length
    · rw [hend] at htrans
      simp only [hend, ne_eq, not_true_eq_false, if_false, htrans, htype]
    · simp only [hend, ne_eq, not_false_eq_true, if_true, htrans, htype]

/-- The period that `findLocalTimeOf` picks for a local time. -/
def pick (c : LocalClock) (L : ℤ) (postTransition : Bool) : ℕ :=
  let r := c.passed L
  if r = 0 ∨ r = c.size then r
  else if c.before r ≤ L then if postTransition then r + 1 else r
  else if 1 < r ∧ L < c.before (r - 1) then if postTransition then r else r - 1
  else r

section Pick

variable {c : LocalClock} {L : ℤ} (postTransition : Bool)

theorem pick_of_end (h : c.passed L = 0 ∨ c.passed L = c.size) :
    pick c L postTransition = c.passed L :=
  if_pos h

variable (h : ¬ (c.passed L = 0 ∨ c.passed L = c.size))
include h

theorem pick_of_skip (hskip : c.before (c.passed L) ≤ L) : pick c L postTransition =
    if postTransition then c.passed L + 1 else c.passed L := by
  rw [pick, if_neg h, if_pos hskip]

theorem pick_of_repeat (hskip : ¬ c.before (c.passed L) ≤ L)
    (hrepeat : 1 < c.passed L ∧ L < c.before (c.passed L - 1)) : pick c L postTransition =
    if postTransition then c.passed L else c.passed L - 1 := by
  rw [pick, if_neg h, if_neg hskip, if_pos hrepeat]

theorem pick_of_unique (hskip : ¬ c.before (c.passed L) ≤ L)
    (hrepeat : ¬ (1 < c.passed L ∧ L < c.before (c.passed L - 1))) :
    pick c L postTransition = c.passed L := by
  rw [pick, if_neg h, if_neg hskip, if_neg hrepeat]

end Pick

/-! ### The seconds before the transitions -/

/-- The local second before a transition can be computed. -/
@[reducible] def SumFits (data : Data) (i : ℕ) : Prop :=
  CInt.InRange64 (data.instant i - 1) ∧ CInt.InRange64 (data.instant i - 1 + data.offset i)

/-- The local seconds that the look-up of a local time computes. -/
def WellFormed.PriorsFit (wf : data.WellFormed) (L : ℤ) : Prop :=
  ¬ (wf.clock.passed L = 0 ∨ wf.clock.passed L = wf.clock.size) →
    data.SumFits (wf.clock.passed L) ∧
      (L < wf.clock.before (wf.clock.passed L) → 1 < wf.clock.passed L →
        data.SumFits (wf.clock.passed L - 1))

section PriorSecond

variable {i : ℕ} {trans : Transition} {prior : LocalTime}
  (hinstant : trans.utctime = data.instant i) (hoffset : prior.utcOffset = data.offset i)
include hinstant hoffset

theorem priorSecondOf_eq (h : data.SumFits i) :
    priorSecondOf trans prior = .ok (data.instant i + data.offset i - 1) := by
  rw [priorSecondOf, hinstant, hoffset, CInt.get64_eq _ h.1]
  show CInt.get64 _ (data.instant i - 1 + data.offset i) = _
  rw [CInt.get64_eq _ h.2, show data.instant i - 1 + data.offset i =
    data.instant i + data.offset i - 1 by omega]

theorem priorSecondOf_overflow (h : ¬ data.SumFits i) :
    priorSecondOf trans prior = .error .overflow := by
  rw [priorSecondOf, hinstant, hoffset]
  by_cases hlast : CInt.InRange64 (data.instant i - 1)
  · rw [CInt.get64_eq _ hlast]
    exact CInt.get64_overflow _ fun hsum => h ⟨hlast, hsum⟩
  · rw [CInt.get64_overflow _ hlast]
    rfl

end PriorSecond

section FindLocalTimeOf

variable (wf : data.WellFormed) {dt : DateTime} {L : ℤ} (hdt : fromUtcTime dt = .ok L)
  (postTransition : Bool)
include wf hdt

/-- The early returns. -/
theorem WellFormed.findLocalTimeOf_of_end
    (hend : wf.clock.passed L = 0 ∨ wf.clock.passed L = wf.clock.size) :
    ∃ type, data.findLocalTimeOf dt postTransition = .ok type ∧
      type.utcOffset = wf.clock.offset (wf.clock.passed L) := by
  simp only [findLocalTimeOf, hdt, wf.upperBound_localtime, bind, Except.bind]
  by_cases hearly : wf.clock.passed L = 0
  · obtain ⟨type, htype, hoffset⟩ := wf.lookup_front
    rw [if_pos ((wf.early_localtime L).mpr hearly), hearly]
    exact ⟨type, htype, hoffset⟩
  · have hlast : wf.clock.passed L = data.transitions.length := hend.resolve_left hearly
    have hassert : (data.transitions.length != 0) = true := bne_iff_ne.mpr (hlast ▸ hearly)
    obtain ⟨back, type, hback, htype, -, hoffset⟩ :=
      wf.lookup (i := wf.clock.passed L - 1) (by omega)
    rw [show wf.clock.passed L - 1 + 1 = wf.clock.passed L by omega] at hoffset
    rw [hlast] at hback
    rw [if_neg (mt (wf.early_localtime L).mp hearly)]
    refine ⟨type, ?_, hoffset⟩
    simp only [hlast, hassert, check_true, if_true, hback, htype]

/-- Between two transitions the local second before the next one decides. -/
theorem WellFormed.findLocalTimeOf_of_middle
    (hmiddle : ¬ (wf.clock.passed L = 0 ∨ wf.clock.passed L = wf.clock.size)) :
    ∃ priorTrans prior trans type, data.findLocalTimeOf dt postTransition =
        (priorSecondOf trans prior >>= fun priorSecond =>
          if priorSecond < L then .ok (if postTransition then type else prior)
          else if wf.clock.passed L = 1 then .ok prior
          else index data.transitions (wf.clock.passed L - 1 - 1) >>= fun prior' =>
            index data.localtimes prior'.localtimeIdx >>= fun type' =>
              priorSecondOf priorTrans type' >>= fun priorSecond =>
                .ok (if L ≤ priorSecond ∧ postTransition = false then type' else prior)) ∧
      priorTrans.utctime = data.instant (wf.clock.passed L - 1) ∧
      prior.utcOffset = data.offset (wf.clock.passed L) ∧
      trans.utctime = data.instant (wf.clock.passed L) ∧
      type.utcOffset = data.offset (wf.clock.passed L + 1) := by
  have hle : wf.clock.passed L ≤ data.transitions.length := wf.clock.passed_le L
  have hsize : wf.clock.size = data.transitions.length := rfl
  have hearly : wf.clock.passed L ≠ 0 := fun hzero => hmiddle (.inl hzero)
  have hend : wf.clock.passed L ≠ data.transitions.length := fun hlast => hmiddle (.inr hlast)
  have hassert : (wf.clock.passed L != 0) = true := bne_iff_ne.mpr hearly
  obtain ⟨priorTrans, prior, hpriorTrans, hprior, hpriorInstant, hpriorOffset⟩ :=
    wf.lookup (i := wf.clock.passed L - 1) (by omega)
  obtain ⟨trans, type, htrans, htype, hinstant, hoffset⟩ :=
    wf.lookup (i := wf.clock.passed L) (by omega)
  rw [show wf.clock.passed L - 1 + 1 = wf.clock.passed L by omega] at hpriorOffset
  refine ⟨priorTrans, prior, trans, type, ?_, hpriorInstant, hpriorOffset, hinstant, hoffset⟩
  simp only [findLocalTimeOf, hdt, wf.upperBound_localtime, bind, Except.bind]
  rw [if_neg (mt (wf.early_localtime L).mp hearly)]
  simp only [hassert, check_true, hend, if_false, hpriorTrans, hprior, htrans]
  cases priorSecondOf trans prior with
  | error fault => rfl
  | ok priorSecond =>
    by_cases hskip : priorSecond < L
    · simp only [hskip, if_true]
      cases postTransition
      · rfl
      · exact htype
    · by_cases hfirst : wf.clock.passed L = 1
      · -- both branches of the repeat give the first transition
        simp only [hskip, hfirst, Nat.sub_self, ne_eq, not_true_eq_false, if_false, if_true, pure,
          Except.pure, hprior, ite_self]
      · obtain ⟨before, prior', hbefore, hprior', -, -⟩ :=
          wf.lookup (i := wf.clock.passed L - 1 - 1) (by omega)
        simp only [hskip, hfirst, show wf.clock.passed L - 1 ≠ 0 by omega, ne_eq,
          not_false_eq_true, if_true, if_false, hbefore, hprior', pure, Except.pure]
        cases priorSecondOf priorTrans prior' with
        | error fault => rfl
        | ok priorSecond =>
          by_cases hrepeat : L ≤ priorSecond
          · cases postTransition <;> simp [hrepeat]
          · simp [hrepeat]

/-- **The look-up of a local time.** -/
theorem WellFormed.findLocalTimeOf_eq (hfits : wf.PriorsFit L) :
    ∃ type, data.findLocalTimeOf dt postTransition = .ok type ∧
      type.utcOffset = wf.clock.offset (pick wf.clock L postTransition) := by
  by_cases hend : wf.clock.passed L = 0 ∨ wf.clock.passed L = wf.clock.size
  · rw [pick_of_end postTransition hend]
    exact wf.findLocalTimeOf_of_end hdt postTransition hend
  · obtain ⟨hfits, hfits'⟩ := hfits hend
    obtain ⟨priorTrans, prior, trans, type, heq, hpriorInstant, hprior, hinstant, htype⟩ :=
      wf.findLocalTimeOf_of_middle hdt postTransition hend
    have hbefore : data.instant (wf.clock.passed L) + data.offset (wf.clock.passed L) =
        wf.clock.before (wf.clock.passed L) := rfl
    rw [heq, priorSecondOf_eq hinstant hprior hfits, hbefore]
    show ∃ found, (if wf.clock.before (wf.clock.passed L) - 1 < L then _ else _) = _ ∧ _
    by_cases hskip : wf.clock.before (wf.clock.passed L) ≤ L
    · rw [pick_of_skip postTransition hend hskip, if_pos (by omega)]
      cases postTransition
      · exact ⟨prior, rfl, hprior⟩
      · exact ⟨type, rfl, htype⟩
    · rw [if_neg (by omega)]
      by_cases hfirst : wf.clock.passed L = 1
      · rw [pick_of_unique postTransition hend hskip (by omega), if_pos hfirst]
        exact ⟨prior, rfl, hprior⟩
      · obtain ⟨before, type', hindex, hindex', -, htype'⟩ :=
          wf.lookup (i := wf.clock.passed L - 1 - 1) (by
            have hle := wf.clock.passed_le L
            show _ < wf.clock.size
            omega)
        rw [show wf.clock.passed L - 1 - 1 + 1 = wf.clock.passed L - 1 by omega] at htype'
        have hfits' := hfits' (by omega) (by omega)
        rw [if_neg hfirst, hindex]
        show ∃ found, (index data.localtimes before.localtimeIdx >>= fun type' => _) = _ ∧ _
        rw [hindex']
        show ∃ found, (priorSecondOf priorTrans type' >>= fun priorSecond => _) = _ ∧ _
        rw [priorSecondOf_eq hpriorInstant htype' hfits']
        refine ⟨_, rfl, ?_⟩
        have hbefore' : data.instant (wf.clock.passed L - 1) + data.offset (wf.clock.passed L - 1) =
            wf.clock.before (wf.clock.passed L - 1) := rfl
        rw [hbefore']
        by_cases hrepeat : L < wf.clock.before (wf.clock.passed L - 1)
        · rw [pick_of_repeat postTransition hend hskip ⟨by omega, hrepeat⟩]
          cases postTransition
          · rw [if_pos ⟨by omega, rfl⟩]
            exact htype'
          · rw [if_neg nofun]
            exact hprior
        · rw [pick_of_unique postTransition hend hskip fun h => hrepeat h.2,
            if_neg fun h => hrepeat (by omega)]
          exact hprior

/-- **An overflow**, if a local second that is needed cannot be computed. -/
theorem WellFormed.findLocalTimeOf_overflow (hfits : ¬ wf.PriorsFit L) :
    data.findLocalTimeOf dt postTransition = .error .overflow := by
  obtain ⟨hend, hfits⟩ := Classical.not_imp.mp hfits
  obtain ⟨priorTrans, prior, trans, type, heq, hpriorInstant, hprior, hinstant, -⟩ :=
    wf.findLocalTimeOf_of_middle hdt postTransition hend
  rw [heq]
  by_cases hnext : data.SumFits (wf.clock.passed L)
  · -- the sum at the next transition is compared before the other one is computed
    obtain ⟨hskip, hfits⟩ := Classical.not_imp.mp fun h => hfits ⟨hnext, h⟩
    obtain ⟨hpos, hfits⟩ := Classical.not_imp.mp hfits
    obtain ⟨before, type', hindex, hindex', -, htype'⟩ :=
      wf.lookup (i := wf.clock.passed L - 1 - 1) (by
        have hle := wf.clock.passed_le L
        show _ < wf.clock.size
        omega)
    rw [show wf.clock.passed L - 1 - 1 + 1 = wf.clock.passed L - 1 by omega] at htype'
    have hbefore : data.instant (wf.clock.passed L) + data.offset (wf.clock.passed L) =
        wf.clock.before (wf.clock.passed L) := rfl
    rw [priorSecondOf_eq hinstant hprior hnext, hbefore]
    show (if wf.clock.before (wf.clock.passed L) - 1 < L then _ else _) = _
    rw [if_neg (by omega), if_neg (by omega), hindex]
    show (index data.localtimes before.localtimeIdx >>= fun type' => _) = _
    rw [hindex']
    show (priorSecondOf priorTrans type' >>= fun priorSecond => _) = _
    rw [priorSecondOf_overflow hpriorInstant htype' hfits]
    rfl
  · rw [priorSecondOf_overflow hinstant hprior hnext]
    rfl

end FindLocalTimeOf

end Data

end TimeZone

end Dxian
