import Dxian.Base.TimeText
import Dxian.Base.TimeZone.ZoneClock

/-!
# Log records in one time zone

As long as the time zone stays the same, every record shows its own second, though most take
it from the cache. In UTC the text is that of the `Timestamp` of the record, though the one
comes from the calendar of `Date`, the other one from `gmtime_r`. In the time zone of a zone
file the text is the local time that the bytes of the file tell.

## Main results

- `Steady.of_run` — what the cache of a thread holds
- `utc_records` — records in UTC, and the order of their texts
- `zone_file_records` — records in the time zone of a file
-/

namespace Dxian.LogTime

open Transition

variable {s u : LogTime} {t : ℤ} {v : List Action} {text us : List UInt8} {tz : TimeZone}

/-- Time zones in which all records look the same. -/
structure Alike (tz tz' : TimeZone) : Prop where
  valid : tz.valid = tz'.valid
  render : ∀ seconds, renderTime tz seconds = renderTime tz' seconds

theorem alike_of_invalid (h : tz.valid = false) : Alike tz {} := by
  have hdefault : ({} : TimeZone).valid = false := rfl
  refine ⟨h, fun seconds => ?_⟩
  simp only [renderTime, civilTime, h, hdefault, Bool.false_eq_true, if_false]

/-- A time zone that is set looks like `tz`. -/
def Keeps (tz : TimeZone) : Action → Prop
  | .setTimeZone tz' => Alike tz' tz
  | .record _ => True

/-- What the cache of a thread holds whose records are all in the zone `tz`. -/
structure Steady (tz : TimeZone) (v : List Action) (s : LogTime) : Prop where
  zone : Alike s.zone tz
  first : (∀ t, .record t ∉ v) → s.lastSecond = 0 ∧ s.time = []
  later : (∃ t, .record t ∈ v) → renderTime tz s.lastSecond = .ok s.time

/-- A record renders its second, unless the last record has. -/
theorem rendered_of_formatTime (h : s.formatTime t = .ok (u, text, us)) :
    renderTime s.zone (secondOf t) = .ok text ∨
      s.lastSecond = secondOf t ∧ s.time = text ∧ text.length = 17 := by
  obtain ⟨s', hrefresh, h⟩ := exists_of_bind_eq_ok h
  obtain ⟨us', -, h⟩ := exists_of_bind_eq_ok h
  obtain ⟨⟨⟩, hcheck, h⟩ := exists_of_bind_eq_ok h
  have hlength := beq_iff_eq.mp (of_check hcheck)
  cases h
  unfold refresh at hrefresh
  split at hrefresh
  · obtain ⟨text', htext, hrefresh⟩ := exists_of_bind_eq_ok hrefresh
    cases hrefresh
    exact .inl htext
  · next hsecond =>
    cases hrefresh
    exact .inr ⟨(not_ne_iff.mp hsecond).symm, rfl, hlength⟩

/-- **Step lemma** for a record. -/
theorem Steady.record (hs : Steady tz v s) (h : s.formatTime t = .ok (u, text, us)) :
    Steady tz (v ++ [.record t]) u := by
  obtain ⟨hzone, hsecond, htime⟩ := of_formatTime h
  have hmem : Action.record t ∈ v ++ [.record t] := List.mem_append_right _ List.mem_cons_self
  refine ⟨hzone ▸ hs.zone, fun hnone => absurd hmem (hnone t), fun _ => ?_⟩
  rw [hsecond, htime]
  rcases rendered_of_formatTime h with hrendered | ⟨hlast, hcached, hlength⟩
  · rwa [hs.zone.render] at hrendered
  · by_cases hbefore : ∃ t', .record t' ∈ v
    · rw [← hlast, ← hcached]
      exact hs.later hbefore
    · -- no text yet
      rw [← hcached, (hs.first (not_exists.mp hbefore)).2] at hlength
      cases hlength

/-- **Run lemma.** -/
theorem Steady.of_run (hrun : machine.Run { zone := tz } v s) (hv : ∀ a ∈ v, Keeps tz a) :
    Steady tz v s := by
  induction hrun with
  | nil => exact ⟨⟨rfl, fun _ => rfl⟩, fun _ => ⟨rfl, rfl⟩, nofun⟩
  | @snoc v s u a _ hstep ih =>
    have hs := ih fun a ha => hv a (List.mem_append_left _ ha)
    have hlast := hv a (List.mem_append_right _ List.mem_cons_self)
    cases a with
    | setTimeZone tz' =>
      have hrecord : ∀ t, .record t ∈ v ++ [.setTimeZone tz'] ↔ .record t ∈ v := by simp
      cases hstep
      exact ⟨hlast, fun hnone => hs.first fun t => mt (hrecord t).mpr (hnone t),
        fun ⟨t, ht⟩ => hs.later ⟨t, (hrecord t).mp ht⟩⟩
    | record t =>
      obtain ⟨⟨u', text, us⟩, hformat, rfl⟩ := exists_of_map_eq_ok (Eq.symm hstep)
      exact hs.record hformat

/-! ## The text of a record -/

/-- What stands behind the second of a record. -/
def suffix (tz : TimeZone) (t : ℤ) : List UInt8 :=
  bytes "." ++ zeroPadded 6 (microsecondsOf t) ++ if tz.valid then bytes " " else bytes "Z "

theorem renderMicroseconds_of_fits (tz : TimeZone) (hfits : Fits t) :
    renderMicroseconds tz (microsecondsOf t) = .ok (suffix tz t) := by
  have hsix := (length_microseconds_iff t).mpr hfits
  have hdot : (bytes ".").length = 1 := rfl
  have hblank : (bytes " ").length = 1 := rfl
  have hzulu : (bytes "Z ").length = 2 := rfl
  cases hvalid : tz.valid with
  | true =>
    simp [renderMicroseconds, suffix, hvalid, hsix, hdot, hblank, bind, Except.bind, pure,
      Except.pure]
  | false =>
    simp [renderMicroseconds, suffix, hvalid, hsix, hdot, hzulu, bind, Except.bind, pure,
      Except.pure]

/-- A record in the zone of all records before it. -/
theorem Steady.formatTime_eq (hs : Steady tz v s)
    (hrendered : renderTime tz (secondOf t) = .ok text) (hfits : Fits t)
    (hfirst : (∃ t', .record t' ∈ v) ∨ secondOf t ≠ 0) :
    ∃ u, s.formatTime t = .ok (u, text, suffix tz t) := by
  have hus := renderMicroseconds_of_fits s.zone hfits
  have hsuffix : suffix s.zone t = suffix tz t := by rw [suffix, suffix, hs.zone.valid]
  rw [hsuffix] at hus
  by_cases hsecond : secondOf t = s.lastSecond
  · -- the text of the last record
    have hbefore : ∃ t', .record t' ∈ v := by
      by_contra hnone
      have hzero := (hs.first (not_exists.mp hnone)).1
      exact hfirst.elim hnone fun hne => hne (hsecond.trans hzero)
    have hcached := hs.later hbefore
    have hlength := length_of_renderTime hcached
    rw [← hsecond, hrendered] at hcached
    cases hcached
    refine ⟨s, ?_⟩
    rw [formatTime_cached hsecond, hus]
    simp [hlength, bind, Except.bind, pure, Except.pure]
  · rw [← hs.zone.render] at hrendered
    refine ⟨{ s with lastSecond := secondOf t, time := text }, ?_⟩
    rw [LogTime.formatTime_eq hsecond hrendered, hus]
    rfl

/-- The seconds of the years 0 to 9999. -/
@[reducible] def InYears (seconds : ℤ) : Prop :=
  -62167219200 ≤ seconds ∧ seconds < 253402300800

theorem InYears.inDateRange {seconds : ℤ} (h : InYears seconds) :
    InDateRange (julianDayOf seconds) := by
  unfold julianDayOf
  omega

theorem renderTime_of_civilTime {seconds localSecond : ℤ} (hyears : InYears localSecond)
    (h : civilTime tz seconds = .ok (civil localSecond)) :
    renderTime tz seconds = .ok (dateTimeText (civil localSecond)) := by
  have hcolumns := civil_columns hyears.1 hyears.2
  simp only [renderTime, h, bind, Except.bind, pure, Except.pure, hcolumns.length_dateTimeText,
    beq_self_eq_true, check_true]

/-- A record can be shown: it is not the first one if it falls in the second 0, and its
microseconds leave room for their sign. -/
structure Showable (v : List Action) (t : ℤ) : Prop where
  first : (∃ t', .record t' ∈ v) ∨ secondOf t ≠ 0
  fits : Fits t

/-! ## Coordinated universal time -/

/-- A record of a thread whose records so far are in UTC. -/
structure UtcRecord (v : List Action) (s : LogTime) (t : ℤ) : Prop extends Showable v t where
  run : machine.Run {} v s
  keeps : ∀ tz, .setTimeZone tz ∈ v → tz.valid = false
  years : InYears (secondOf t)

theorem UtcRecord.formatTime_eq (h : UtcRecord v s t) :
    ∃ u text us, s.formatTime t = .ok (u, text, us) ∧
      text ++ us = (Timestamp.mk t).toFormattedString true ++ bytes "Z " := by
  have hkeeps : ∀ a ∈ v, Keeps {} a := by
    intro a ha
    cases a with
    | setTimeZone tz => exact alike_of_invalid (h.keeps tz ha)
    | record t => trivial
  have hcivil : civilTime {} (secondOf t) = .ok (civil (secondOf t)) :=
    breakTime_eq_gmtime_r h.years.inDateRange
  obtain ⟨u, hu⟩ := (Steady.of_run h.run hkeeps).formatTime_eq
    (renderTime_of_civilTime h.years hcivil) h.fits h.first
  have htimestamp := (Timestamp.toFormattedString_eq (t := ⟨t⟩)
    (civil_columns h.years.1 h.years.2)).1
  have hsuffix : suffix {} t = bytes "." ++ zeroPadded 6 (microsecondsOf t) ++ bytes "Z " := rfl
  refine ⟨u, _, _, hu, ?_⟩
  rw [htimestamp, hsuffix, List.append_assoc, List.append_assoc, List.append_assoc]

theorem UtcRecord.inYears (h : UtcRecord v s t) (ht : 0 ≤ t) : (Timestamp.mk t).InYears := by
  have hyears := h.years
  have hbounds := microsecondsOf_bounds t
  have hsum : t = secondOf t * 1000000 + microsecondsOf t :=
    Timestamp.second_add_microsecond ⟨t⟩
  exact ⟨ht, show t < 253402300800000000 by omega⟩

/-- **Log records in UTC.** Every record shows what `Timestamp::toFormattedString` gives for
its time, and `Z`. The records from 1970 on, of all threads, compare as strings like their
times. -/
theorem utc_records :
    (∀ v s t, UtcRecord v s t → ∃ u text us, s.formatTime t = .ok (u, text, us) ∧
      text ++ us = (Timestamp.mk t).toFormattedString true ++ bytes "Z ") ∧
    ∀ v s t v' s' t' u text us u' text' us', UtcRecord v s t → UtcRecord v' s' t' →
      0 ≤ t → 0 ≤ t' → s.formatTime t = .ok (u, text, us) →
      s'.formatTime t' = .ok (u', text', us') → (text ++ us < text' ++ us' ↔ t < t') := by
  refine ⟨fun v s t h => h.formatTime_eq, fun v s t v' s' t' u text us u' text' us' h h' ht ht'
    hok hok' => ?_⟩
  obtain ⟨_, _, _, heq, htext⟩ := h.formatTime_eq
  obtain ⟨_, _, _, heq', htext'⟩ := h'.formatTime_eq
  cases hok.symm.trans heq
  cases hok'.symm.trans heq'
  have hin := h.inYears ht
  have hin' := h'.inYears ht'
  rw [htext, htext', List.append_lt_append_iff
    (hin.length_toFormattedString.1.trans hin'.length_toFormattedString.1.symm),
    (Timestamp.toFormattedString_lt_iff hin hin').1]
  exact or_iff_left fun hsame => List.lt_irrefl _ hsame.2

/-- The first record of a thread, and the first one of another thread. -/
theorem utc_records_2001 : ∃ text us text' us' : List UInt8,
    text ++ us = (Timestamp.mk 1000000000000000).toFormattedString true ++ bytes "Z " ∧
      (text ++ us < text' ++ us' ↔ (1000000000000000 : ℤ) < 1000000001000000) := by
  have h : UtcRecord [] {} 1000000000000000 :=
    ⟨⟨.inr (by decide +kernel), by decide +kernel⟩, .nil, nofun, by decide +kernel⟩
  have h' : UtcRecord [] {} 1000000001000000 :=
    ⟨⟨.inr (by decide +kernel), by decide +kernel⟩, .nil, nofun, by decide +kernel⟩
  obtain ⟨u, text, us, hok, htext⟩ := utc_records.1 _ _ _ h
  obtain ⟨u', text', us', hok', -⟩ := utc_records.1 _ _ _ h'
  exact ⟨text, us, text', us', htext,
    utc_records.2 _ _ _ _ _ _ _ _ _ _ _ _ h h' (by decide) (by decide) hok hok'⟩

/-! ## The time zone of a file -/

open TimeZone Format

/-- **From the bytes of a zone file to the log.** A process loads a file of version 1 or 2
whose transition times ascend, and sets the time zone before it logs. Then every record shows
the local time with the offset that the file gives for its second, whether it is rendered or
comes from the cache. -/
theorem zone_file_records {c : Contents} {file : List UInt8} {zone : TimeZone}
    (h : Holds c file) (hleaps : c.leaps = []) (hlength : file.length < 2 ^ 31)
    (hascending : c.Ascending) {mem : Memory} (hzone : loadZoneFile mem (some file) = .ok zone)
    {v : List Action}
    (hv : ∀ tz, .setTimeZone tz ∈ v → tz = zone) {s : LogTime}
    (hrun : machine.Run {} (.setTimeZone zone :: v) s) {t : ℤ} (ht : Showable v t)
    (hyears : InYears (c.shown (secondOf t))) :
    ∃ u, s.formatTime t = .ok (u, dateTimeText (civil (c.shown (secondOf t))),
      bytes "." ++ zeroPadded 6 (microsecondsOf t) ++ bytes " ") := by
  obtain ⟨u, hset, hrun⟩ := hrun.head
  cases hset
  have hkeeps : ∀ a ∈ v, Keeps zone a := by
    intro a ha
    cases a with
    | setTimeZone tz =>
      rw [hv tz ha]
      exact ⟨rfl, fun _ => rfl⟩
    | record t => trivial
  obtain ⟨footer, -, hload⟩ := h.loadZoneFile_eq hleaps hlength
  obtain ⟨timeSize, wf⟩ := h.wellFormed
  obtain rfl := hload mem zone hzone
  have hordered := Contents.ordered_data wf hascending footer
  have hrange := hyears.inDateRange
  rw [← c.shown_data footer] at hrange
  have hlocal := toLocalTime_of_ordered hordered hrange
  have hcivil : civilTime ⟨some (c.data footer)⟩ (secondOf t) =
      .ok (civil (c.shown (secondOf t))) := by
    have hvalid : (TimeZone.mk (some (c.data footer))).valid = true := rfl
    rw [civilTime, if_pos hvalid, hlocal, c.shown_data]
    rfl
  exact (Steady.of_run hrun hkeeps).formatTime_eq (renderTime_of_civilTime hyears hcivil) ht.fits
    ht.first

/-- The first record of a process in Shanghai. -/
theorem zone_file_records_shanghai : ∃ zone s u,
    loadZoneFile usualMemory (some (shanghai.encode TimeZone.version2)) = .ok zone ∧
    machine.Run {} [.setTimeZone zone] s ∧
    s.formatTime 1000000000000000 =
      .ok (u, dateTimeText (civil (shanghaiContents.shown (secondOf 1000000000000000))),
        bytes "." ++ zeroPadded 6 (microsecondsOf 1000000000000000) ++ bytes " ") := by
  have hholds : Holds shanghaiContents (shanghai.encode TimeZone.version2) :=
    .version2 shanghai rfl wellFormed_shanghaiContents
  obtain ⟨footer, hload, -⟩ := hholds.loadZoneFile_eq rfl (by decide +kernel)
  have hzone := hload usualMemory (by decide) ⟨by decide, by decide, by decide, by decide +kernel⟩
  have hrun : machine.Run {} [.setTimeZone ⟨some (shanghaiContents.data footer)⟩]
      { zone := ⟨some (shanghaiContents.data footer)⟩ } := .single rfl
  have hyears : InYears (shanghaiContents.shown (secondOf 1000000000000000)) := by
    rw [shown_shanghai]
    decide +kernel
  obtain ⟨u, hu⟩ := zone_file_records hholds rfl (by decide +kernel) (by decide) hzone (v := [])
    (fun _ hmem => absurd hmem List.not_mem_nil) hrun
    ⟨.inr (by decide +kernel), by decide +kernel⟩ hyears
  exact ⟨_, _, u, hzone, hrun, hu⟩

end Dxian.LogTime
