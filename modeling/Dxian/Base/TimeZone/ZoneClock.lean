import Dxian.Base.Gmtime
import Dxian.Base.TimeZone.Conversion
import Dxian.Base.TimeZone.Versions

/-!
# The clock of a zone file

What a zone file says about its local times reaches the callers of `toLocalTime` and
`fromLocalTime`: from the bytes of a file to the fields of a local time and back.

## Main results

- `Data.Ordered.findLocalTime_eq` — the look-up of a second, in transitions that ascend
- `zone_file_local_times` — the local times of a file of version 1 or 2
-/

namespace Dxian

namespace TimeZone

namespace Data

/-- Data whose transitions ascend. -/
structure Ordered (data : Data) : Prop where
  nonempty : data.localtimes ≠ []
  indices : ∀ trans ∈ data.transitions, trans.localtimeIdx < data.localtimes.length
  increasing : data.transitions.Pairwise (·.utctime < ·.utctime)

variable {data : Data}

theorem index_utcOffset {i : ℕ} (h : i < data.localtimes.length) :
    ∃ type, index data.localtimes i = .ok type ∧ type.utcOffset = data.utcOffset i := by
  have htype := List.getElem?_eq_getElem h
  refine ⟨_, index_eq htype, ?_⟩
  rw [utcOffset, htype]
  rfl

/-- **The look-up of a second**: the last transition up to it decides. -/
theorem Ordered.findLocalTime_eq (h : data.Ordered) (t : ℤ) :
    ∃ type, data.findLocalTime t = .ok type ∧ type.utcOffset = data.offsetAt t := by
  have hsorted : data.transitions.Pairwise fun a b =>
      decide (t < a.utctime) = true → decide (t < b.utctime) = true := by
    refine h.increasing.imp fun {a b} hab => ?_
    rw [decide_eq_true_eq, decide_eq_true_eq]
    omega
  obtain ⟨r, hr⟩ : ∃ r, r =
      BinarySearch.upperBound (fun trans => decide (t < trans.utctime)) data.transitions :=
    ⟨_, rfl⟩
  have hle : r ≤ data.transitions.length := hr ▸ BinarySearch.upperBound_le ..
  have hearly := BinarySearch.upperBound_eq_zero_iff hsorted
  have htake : (data.transitions.filter fun trans => trans.utctime ≤ t) =
      data.transitions.take r := by
    rw [hr, ← BinarySearch.filter_eq_take hsorted]
    apply List.filter_congr
    intro trans _
    rw [← decide_not]
    exact decide_eq_decide.mpr Int.not_lt.symm
  rw [findLocalTime, offsetAt, htake, List.getLast?_take, ← hr]
  rw [← hr] at hearly
  by_cases hzero : r = 0
  · rw [if_pos (hearly.mp hzero), if_pos hzero]
    exact index_utcOffset (List.length_pos_iff.mpr h.nonempty)
  · have htrans : data.transitions[r - 1]? = some data.transitions[r - 1] :=
      List.getElem?_eq_getElem (by omega)
    have hassert : (r != 0) = true := bne_iff_ne.mpr hzero
    have hlast : ∀ k, k = r - 1 → index data.transitions k = .ok data.transitions[r - 1] := by
      rintro k rfl
      exact index_eq htrans
    have hidx := h.indices data.transitions[r - 1] (List.getElem_mem (by omega))
    obtain ⟨type, htype, hoffset⟩ := index_utcOffset hidx
    refine ⟨type, ?_, ?_⟩
    · rw [if_neg (mt hearly.mpr hzero)]
      simp only [hassert, check_true, bind, Except.bind]
      split
      · rw [hlast _ rfl]
        exact htype
      · next hend =>
        rw [hlast _ (by omega)]
        exact htype
    · rw [if_neg hzero, htrans]
      exact hoffset

end Data

/-- `toLocalTime` of data whose transitions ascend. -/
theorem toLocalTime_of_ordered {data : Data} (h : data.Ordered) {t : ℤ}
    (hrange : InDateRange (julianDayOf (data.shown t))) :
    toLocalTime ⟨some data⟩ t = .ok (civil (data.shown t), data.offsetAt t) := by
  obtain ⟨type, htype, hoffset⟩ := h.findLocalTime_eq t
  have hbreak : breakTime (t + data.offsetAt t) = .ok (civil (data.shown t)) :=
    breakTime_eq_gmtime_r hrange
  have hsum := CInt.get64_eq Fault.overflow (inRange64_of_inDateRange hrange)
  rw [Data.shown] at hsum
  simp only [toLocalTime, getData, htype, hoffset, hsum, hbreak, bind, Except.bind, pure,
    Except.pure]

/-- `fromLocalTime` of a local time that is shown once. -/
theorem fromLocalTime_of_unique {data : Data} (wf : data.WellFormed) (hfits : data.SumsFit) {t : ℤ}
    (hrange : InDateRange (julianDayOf (data.shown t)))
    (hunique : ∀ u, data.shown u = data.shown t → u = t) (postTransition : Bool) :
    fromLocalTime ⟨some data⟩ (civil (data.shown t)) postTransition = .ok t := by
  have hfrom := fromUtcTime_civil hrange
  have hunique' : ∀ u, wf.clock.shown u = wf.clock.shown t → u = t := by
    intro u hu
    rw [← wf.shown_eq, ← wf.shown_eq] at hu
    exact hunique u hu
  rw [wf.shown_eq] at hfrom ⊢
  rw [fromLocalTime_eq wf hfrom postTransition (hfits.priorsFit wf _),
    pick_eq_period postTransition hunique', ← wf.shown_eq, ← wf.offsetAt_eq, Data.shown,
    Int.add_sub_cancel]

namespace Format

namespace Contents

/-- The offset at a second: that of the last transition up to it, or else that of the first
local time type record. -/
def offsetAt (c : Contents) (t : ℤ) : ℤ :=
  match (c.transitions.filter fun p => p.1 ≤ t).getLast? with
  | some last => c.offset last.2
  | none => c.offset 0

/-- The local time at a second, in seconds. -/
def shown (c : Contents) (t : ℤ) : ℤ := t + c.offsetAt t

variable {c : Contents}

theorem offsetAt_data (c : Contents) (footer : List UInt8) (t : ℤ) :
    (c.data footer).offsetAt t = c.offsetAt t := by
  have hfilter : ((c.data footer).transitions.filter fun trans => trans.utctime ≤ t) =
      (c.transitions.filter fun p => p.1 ≤ t).map fun p =>
        ⟨p.1, p.1 + c.offset p.2, p.2.toNat⟩ :=
    List.filter_map
  rw [Data.offsetAt, offsetAt, hfilter, List.getLast?_map]
  cases (c.transitions.filter fun p => p.1 ≤ t).getLast? with
  | none => exact c.utcOffset_localtimes 0
  | some last => exact c.utcOffset_localtimes last.2

theorem shown_data (c : Contents) (footer : List UInt8) (t : ℤ) :
    (c.data footer).shown t = c.shown t := by
  rw [Data.shown, shown, offsetAt_data]

/-- The transition times ascend. -/
@[reducible] def Ascending (c : Contents) : Prop := c.transitions.Pairwise (·.1 < ·.1)

theorem ordered_data {timeSize : ℕ} (wf : c.WellFormed timeSize) (h : c.Ascending)
    (footer : List UInt8) : (c.data footer).Ordered where
  nonempty hnil := wf.types (List.map_eq_nil_iff.mp hnil)
  indices trans htrans := by
    obtain ⟨p, hp, rfl⟩ := List.mem_map.mp htrans
    show p.2.toNat < (c.types.map _).length
    rw [List.length_map]
    exact wf.indices p hp
  increasing := List.pairwise_map.mpr h

end Contents

/-- The files of versions 1 and 2 whose data are those of `c`, of a file of version 2 the
second block. -/
inductive Holds (c : Contents) : List UInt8 → Prop
  | version1 (file : Version1) : file.contents = c → c.WellFormed 4 → Holds c file.encode
  | version2 (file : Version2) : file.second = c → c.WellFormed 8 →
      Holds c (file.encode TimeZone.version2)

variable {c : Contents} {bytes : List UInt8}

theorem Holds.wellFormed (h : Holds c bytes) : ∃ timeSize, c.WellFormed timeSize := by
  cases h with
  | version1 file _ wf => exact ⟨4, wf⟩
  | version2 file _ wf => exact ⟨8, wf⟩

theorem loadZoneFile_of_read {mem : Memory} {data : Data}
    (h : readTimeZoneFile mem (some bytes) {} = .ok (some data)) :
    loadZoneFile mem (some bytes) = .ok ⟨some data⟩ := by
  rw [loadZoneFile, h]
  rfl

theorem exists_read_of_loadZoneFile {mem : Memory} {zone : TimeZone}
    (h : loadZoneFile mem (some bytes) = .ok zone) :
    readTimeZoneFile mem (some bytes) {} = .ok zone.data := by
  obtain ⟨data, hread, hzone⟩ := exists_of_bind_eq_ok h
  cases hzone
  exact hread

/-- Room for more than the footer. -/
theorem Contents.Room.of_le {mem : Memory} {footer : List UInt8} (h : c.Room bytes mem)
    (hle : footer.length ≤ bytes.length) : c.Room footer mem :=
  ⟨h.transitions, h.types, h.designations, Nat.le_trans hle h.footer⟩

/-- The data that are loaded. -/
theorem Holds.loadZoneFile_eq (h : Holds c bytes) (hleaps : c.leaps = [])
    (hlength : bytes.length < 2 ^ 31) : ∃ footer,
      (∀ mem, c.SumsFit → c.Room bytes mem →
        loadZoneFile mem (some bytes) = .ok ⟨some (c.data footer)⟩) ∧
      ∀ mem zone, loadZoneFile mem (some bytes) = .ok zone → zone = ⟨some (c.data footer)⟩ := by
  cases h with
  | version1 file hc wf =>
    subst hc
    have hversion : (0 : UInt8) ≠ TimeZone.version2 := by decide
    have hbytes : file.encode = header 0 file.reserved file.contents ++
        (file.contents.block 4 ++ []) := by rw [List.append_nil]; rfl
    have hcounted := Version1.counted hlength
    refine ⟨[], fun mem _ hroom => ?_, fun mem zone hzone => ?_⟩
    · have hread : readTimeZoneFile mem (some file.encode) {} =
          .ok (some (file.contents.data [])) := by
        rw [hbytes]
        exact (read_first_iff hversion hcounted wf hleaps).mpr
          ⟨hroom.of_le (Nat.zero_le _), rfl⟩
      exact loadZoneFile_of_read hread
    · have hread := exists_read_of_loadZoneFile hzone
      rw [hbytes] at hread
      exact congrArg TimeZone.mk ((read_first_iff hversion hcounted wf hleaps).mp hread).2
  | version2 file hc wf =>
    subst hc
    obtain ⟨hfirst, hskip, hsecond⟩ := Version2.counted hlength
    have hfooter : file.footer.length ≤ (file.encode TimeZone.version2).length := by
      simp only [Version2.encode, List.length_append]
      omega
    refine ⟨file.footer, fun mem hfits hroom => ?_, fun mem zone hzone => ?_⟩
    · exact loadZoneFile_of_read ((Version2.read_second_iff hfirst hskip hsecond wf hleaps).mpr
        ⟨⟨hfits, hroom.of_le hfooter⟩, rfl⟩)
    · exact congrArg TimeZone.mk ((Version2.read_second_iff hfirst hskip hsecond wf hleaps).mp
        (exists_read_of_loadZoneFile hzone)).2

/-- The data are those that a look-up of a local time needs: the transitions are far enough from
each other, and the local seconds before them are `int64_t`s. -/
structure Contents.Separated (c : Contents) : Prop where
  wellFormed : (c.data []).WellFormed
  sumsFit : (c.data []).SumsFit

theorem Contents.Separated.wellFormed_data (h : c.Separated) (footer : List UInt8) :
    (c.data footer).WellFormed :=
  have wf := h.wellFormed
  ⟨wf.nonempty, wf.indices, wf.localtime, wf.increasing, wf.separated⟩

/-- **The local times of a zone file.** From a file of version 1 or 2 without leap seconds
whose transition times ascend, `loadZoneFile` makes a time zone, if the local times of the
transitions are `int64_t`s and there is room for the file. The time zone shows at each second
the local time with the offset of the last transition up to it, and of the first local time type
before all of them. If the transitions are far enough from each other, `fromLocalTime` finds
the second of every local time that is shown once. -/
theorem zone_file_local_times (h : Holds c bytes) (hleaps : c.leaps = [])
    (hlength : bytes.length < 2 ^ 31) (hascending : c.Ascending) (hfits : c.SumsFit)
    {mem : Memory} (hroom : c.Room bytes mem) :
    ∃ zone, loadZoneFile mem (some bytes) = .ok zone ∧ zone.data.isSome = true ∧
      (∀ t, InDateRange (julianDayOf (c.shown t)) →
        zone.toLocalTime t = .ok (civil (c.shown t), c.offsetAt t)) ∧
      (c.Separated → ∀ t, InDateRange (julianDayOf (c.shown t)) →
        (∀ u, c.shown u = c.shown t → u = t) →
          ∀ postTransition, zone.fromLocalTime (civil (c.shown t)) postTransition = .ok t) := by
  obtain ⟨footer, hload, -⟩ := h.loadZoneFile_eq hleaps hlength
  obtain ⟨timeSize, wf⟩ := h.wellFormed
  have hordered := Contents.ordered_data wf hascending footer
  refine ⟨_, hload mem hfits hroom, rfl, fun t hrange => ?_,
    fun hseparated t hrange hunique post => ?_⟩
  · rw [← c.shown_data footer] at hrange ⊢
    rw [← c.offsetAt_data footer]
    exact toLocalTime_of_ordered hordered hrange
  · simp only [← c.shown_data footer] at hrange hunique ⊢
    have hsums : (c.data footer).SumsFit := hseparated.sumsFit
    exact fromLocalTime_of_unique (hseparated.wellFormed_data footer) hsums hrange hunique post

theorem shown_shanghai (t : ℤ) : shanghaiContents.shown t =
    if -2177481943 ≤ t then t + 28800 else t + 29143 := by
  by_cases ht : -2177481943 ≤ t
  · simp [Contents.shown, Contents.offsetAt, Contents.offset, shanghaiContents, ht]
  · simp [Contents.shown, Contents.offsetAt, Contents.offset, shanghaiContents, ht]

/-- The first second of 1970 in Shanghai. -/
theorem zone_file_local_times_shanghai :
    ∃ zone, loadZoneFile usualMemory (some (shanghai.encode TimeZone.version2)) = .ok zone ∧
      zone.data.isSome = true ∧
      zone.toLocalTime 0 = .ok (civil (shanghaiContents.shown 0), shanghaiContents.offsetAt 0) ∧
      zone.fromLocalTime (civil (shanghaiContents.shown 0)) false = .ok 0 := by
  have hroom : shanghaiContents.Room (shanghai.encode TimeZone.version2) usualMemory :=
    ⟨by decide, by decide, by decide, by decide +kernel⟩
  obtain ⟨zone, hload, hvalid, hlocal, hfrom⟩ := zone_file_local_times (c := shanghaiContents)
    (.version2 shanghai rfl wellFormed_shanghaiContents) rfl (by decide +kernel) (by decide)
    (by decide) hroom
  have hrange : InDateRange (julianDayOf (shanghaiContents.shown 0)) := by
    rw [shown_shanghai]
    decide
  have hseparated : shanghaiContents.Separated :=
    ⟨⟨by decide, by decide, by decide, by decide, fun i hi => by
      simp [Contents.data, shanghaiContents] at hi⟩, fun i hpos hi => by
      simp [Contents.data, shanghaiContents] at hi
      omega⟩
  refine ⟨zone, hload, hvalid, hlocal 0 hrange, hfrom hseparated 0 hrange (fun u hu => ?_) false⟩
  rw [shown_shanghai 0, if_pos (by decide), shown_shanghai] at hu
  split at hu <;> omega

end Format

end TimeZone

end Dxian
