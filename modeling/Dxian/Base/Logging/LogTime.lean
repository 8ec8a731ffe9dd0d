import Dxian.Base.Logging.Logger
import Dxian.Base.TimeZone.Data
import Dxian.Base.Timestamp
import Dxian.Lib.Transition

/-!
# The time of a log record

`formatTime` keeps the text of the last second that it has rendered, for each thread. It
renders again when the second changes; a change of the time zone is not noticed before
that. The cache starts with the second 0 and no text.

## Main results

- `formatTime_eq`, `formatTime_cached` — the two ways through `formatTime`
- `Cached.record` — what the cache holds after a record
- `cached_time_faithful_iff` — the records that show their own second
-/

namespace Dxian

open Transition

deriving instance DecidableEq for TimeZone

/-- `TimeZone::valid`. -/
def TimeZone.valid (zone : TimeZone) : Bool := zone.data.isSome

/-- `g_logTimeZone`, and `t_lastSecond` and the string in `t_time` of a thread. -/
structure LogTime where
  zone : TimeZone := {}
  lastSecond : ℤ := 0
  time : List UInt8 := []
deriving DecidableEq

namespace LogTime

/-- `%4d`: blanks come before the sign. -/
def blankPadded (width : ℕ) (n : ℤ) : List UInt8 :=
  List.replicate (width - (decimal n).length) 0x20 ++ decimal n

/-- `%02d`: zeros come behind the sign. -/
def zeroPadded (width : ℕ) (n : ℤ) : List UInt8 :=
  (if n < 0 then [0x2d] else []) ++ List.replicate (width - (decimal n).length) 0x30 ++
    decimal n.natAbs

/-- `"%4d%02d%02d %02d:%02d:%02d"`. -/
def dateTimeText (dt : DateTime) : List UInt8 :=
  blankPadded 4 dt.year ++ zeroPadded 2 dt.month ++ zeroPadded 2 dt.day ++ bytes " " ++
    zeroPadded 2 dt.hour ++ bytes ":" ++ zeroPadded 2 dt.minute ++ bytes ":" ++
    zeroPadded 2 dt.second

/-- The local time in the time zone, in UTC if it is invalid. -/
def civilTime (zone : TimeZone) (seconds : ℤ) : Except Fault DateTime :=
  if zone.valid then (zone.toLocalTime seconds).map Prod.fst else toUtcTime seconds

/-- The text of a second, with the `assert` on its length. -/
def renderTime (zone : TimeZone) (seconds : ℤ) : Except Fault (List UInt8) := do
  let dt ← civilTime zone seconds
  let text := dateTimeText dt
  check (text.length == 17)
  return text

/-- The microseconds, with the `assert` on the length. -/
def renderMicroseconds (zone : TimeZone) (microseconds : ℤ) : Except Fault (List UInt8) :=
  if zone.valid then do
    let us := bytes "." ++ zeroPadded 6 microseconds ++ bytes " "
    check (us.length == 8)
    return us
  else do
    let us := bytes "." ++ zeroPadded 6 microseconds ++ bytes "Z "
    check (us.length == 9)
    return us

/-- The second that `formatTime` shows, towards zero. -/
def secondOf (microSecondsSinceEpoch : ℤ) : ℤ :=
  microSecondsSinceEpoch.tdiv Timestamp.kMicroSecondsPerSecond

def microsecondsOf (microSecondsSinceEpoch : ℤ) : ℤ :=
  microSecondsSinceEpoch.tmod Timestamp.kMicroSecondsPerSecond

/-- The update of the cache. -/
def refresh (s : LogTime) (seconds : ℤ) : Except Fault LogTime :=
  if seconds ≠ s.lastSecond then do
    let text ← renderTime s.zone seconds
    return { s with lastSecond := seconds, time := text }
  else return s

/-- `Logger::Impl::formatTime`: the cache, and the two texts that are streamed. -/
def formatTime (s : LogTime) (microSecondsSinceEpoch : ℤ) :
    Except Fault (LogTime × List UInt8 × List UInt8) := do
  let s ← s.refresh (secondOf microSecondsSinceEpoch)
  let us ← renderMicroseconds s.zone (microsecondsOf microSecondsSinceEpoch)
  check (s.time.length == 17)
  return (s, s.time, us)

/-- `formatTime` as it would be without the cache. -/
def uncachedTime (zone : TimeZone) (microSecondsSinceEpoch : ℤ) :
    Except Fault (List UInt8 × List UInt8) := do
  let text ← renderTime zone (secondOf microSecondsSinceEpoch)
  let us ← renderMicroseconds zone (microsecondsOf microSecondsSinceEpoch)
  return (text, us)

inductive Action
  | setTimeZone (tz : TimeZone)
  | record (microSecondsSinceEpoch : ℤ)

/-- The records of a thread, and the calls of `setTimeZone`. -/
def machine : System LogTime Action Fault where
  init s := s = {}
  step s a r := r = match a with
    | .setTimeZone tz => .ok { s with zone := tz }
    | .record t => (s.formatTime t).map Prod.fst

/-! ## The lengths of the texts -/

/-- The numeral of a number is a sign and that of its absolute value. -/
theorem length_decimal_sign (n : ℤ) :
    (decimal n).length = (if n < 0 then 1 else 0) + (decimal n.natAbs).length := by
  have hpos : ¬ (n.natAbs : ℤ) < 0 := by omega
  rw [decimal, decimal, if_neg hpos, List.nil_append, List.length_append, Int.natAbs_natCast]
  split <;> rfl

theorem length_zeroPadded (width : ℕ) (n : ℤ) :
    (zeroPadded width n).length = max width (decimal n).length := by
  have hdecimal := length_decimal_sign n
  rw [zeroPadded, List.length_append, List.length_append, List.length_replicate]
  by_cases hneg : n < 0
  · rw [if_pos hneg] at hdecimal ⊢
    rw [List.length_singleton]
    omega
  · rw [if_neg hneg] at hdecimal ⊢
    rw [List.length_nil]
    omega

theorem length_decimal_le_iff {k : ℕ} (hk : 0 < k) {n : ℤ} (hn : 0 ≤ n) :
    (decimal n).length ≤ k ↔ n.natAbs < 10 ^ k := by
  rw [decimal, if_neg (by omega), List.nil_append, List.length_reverse, List.length_map,
    Numeral.length_digits_le_iff (by decide) hk]

theorem length_decimal_neg_le_iff {k : ℕ} (hk : 0 < k) {n : ℤ} (hn : n < 0) :
    (decimal n).length ≤ k + 1 ↔ n.natAbs < 10 ^ k := by
  rw [decimal, if_pos hn, List.length_append, List.length_reverse, List.length_map,
    List.length_singleton, ← Numeral.length_digits_le_iff (by decide) hk]
  omega

theorem length_twoDigits {n : ℤ} (hlow : 0 ≤ n) (hhigh : n ≤ 99) :
    (zeroPadded 2 n).length = 2 := by
  have hle : (decimal n).length ≤ 2 := (length_decimal_le_iff (by decide) hlow).mpr (by omega)
  rw [length_zeroPadded]
  omega

/-- The text of a valid time of the years 0 to 9999. -/
theorem length_dateTimeText {dt : DateTime} (hvalid : dt.Valid) (hlow : 0 ≤ dt.year)
    (hhigh : dt.year ≤ 9999) : (dateTimeText dt).length = 17 := by
  have hmonth := hvalid.date.month_pos
  have hmonth' := hvalid.date.month_le
  have hday := hvalid.date.day_pos
  have hday' := Int.le_trans hvalid.date.day_le (Gregorian.daysInMonth_le ..)
  have hhour := hvalid.hour
  have hminute := hvalid.minute
  have hsecond := hvalid.second
  rw [DateTime.date_month] at hmonth hmonth'
  rw [DateTime.date_day] at hday hday'
  have hyear : (blankPadded 4 dt.year).length = 4 := by
    have hle : (decimal dt.year).length ≤ 4 :=
      (length_decimal_le_iff (by decide) hlow).mpr (by omega)
    rw [blankPadded, List.length_append, List.length_replicate]
    omega
  simp only [dateTimeText, List.length_append, hyear]
  rw [length_twoDigits (by omega) (by omega), length_twoDigits (by omega) (by omega),
    length_twoDigits (by omega) (by omega), length_twoDigits (by omega) (by omega),
    length_twoDigits (by omega) (by omega)]
  rfl

/-- The microseconds leave six characters for themselves and their sign. -/
def Fits (microSecondsSinceEpoch : ℤ) : Prop := -100000 < microsecondsOf microSecondsSinceEpoch

instance (microSecondsSinceEpoch : ℤ) : Decidable (Fits microSecondsSinceEpoch) :=
  inferInstanceAs (Decidable (_ < _))

theorem microsecondsOf_bounds (microSecondsSinceEpoch : ℤ) :
    -1000000 < microsecondsOf microSecondsSinceEpoch ∧
      microsecondsOf microSecondsSinceEpoch < 1000000 :=
  ⟨Int.lt_tmod_of_pos _ (by decide), Int.tmod_lt_of_pos _ (by decide)⟩

theorem length_microseconds_iff (t : ℤ) :
    (zeroPadded 6 (microsecondsOf t)).length = 6 ↔ Fits t := by
  obtain ⟨hlow, hhigh⟩ := microsecondsOf_bounds t
  rw [length_zeroPadded, max_eq_left_iff]
  unfold Fits
  by_cases hneg : microsecondsOf t < 0
  · rw [length_decimal_neg_le_iff (k := 5) (by decide) hneg]
    omega
  · rw [length_decimal_le_iff (by decide) (by omega)]
    omega

/-- The suffix, if it fits; otherwise an `assert` fails. -/
theorem renderMicroseconds_cases (zone : TimeZone) (t : ℤ) :
    Fits t ∧ (∃ us, renderMicroseconds zone (microsecondsOf t) = .ok us ∧
        (us.length = 8 ∨ us.length = 9)) ∨
      ¬ Fits t ∧ renderMicroseconds zone (microsecondsOf t) = .error .assertion := by
  have hdot : (bytes ".").length = 1 := rfl
  have hblank : (bytes " ").length = 1 := rfl
  have hzulu : (bytes "Z ").length = 2 := rfl
  have hiff := length_microseconds_iff t
  by_cases hfits : Fits t
  · refine .inl ⟨hfits, ?_⟩
    have hsix := hiff.mpr hfits
    cases hvalid : zone.valid with
    | true =>
      refine ⟨bytes "." ++ zeroPadded 6 (microsecondsOf t) ++ bytes " ", ?_, .inl ?_⟩
      · simp [renderMicroseconds, hvalid, hsix, hdot, hblank, bind, Except.bind, pure,
          Except.pure]
      · simp [hsix, hdot, hblank]
    | false =>
      refine ⟨bytes "." ++ zeroPadded 6 (microsecondsOf t) ++ bytes "Z ", ?_, .inr ?_⟩
      · simp [renderMicroseconds, hvalid, hsix, hdot, hzulu, bind, Except.bind, pure,
          Except.pure]
      · simp [hsix, hdot, hzulu]
  · refine .inr ⟨hfits, ?_⟩
    have hsix := mt hiff.mp hfits
    have h8 : (1 + (zeroPadded 6 (microsecondsOf t)).length + 1 == 8) = false :=
      beq_eq_false_iff_ne.mpr (by omega)
    have h9 : (1 + (zeroPadded 6 (microsecondsOf t)).length + 2 == 9) = false :=
      beq_eq_false_iff_ne.mpr (by omega)
    rw [renderMicroseconds]
    cases zone.valid with
    | true =>
      simp only [List.length_append, hdot, hblank, h8, check_false, if_true, bind, Except.bind]
    | false =>
      simp only [List.length_append, hdot, hzulu, h9, check_false, Bool.false_eq_true, if_false,
        bind, Except.bind]

/-! ## The two ways through `formatTime` -/

/-- The second of a record is rendered with a year from 0 to 9999. -/
def HasYear (zone : TimeZone) (seconds : ℤ) : Prop :=
  ∃ dt, civilTime zone seconds = .ok dt ∧ 0 ≤ dt.year ∧ dt.year ≤ 9999

theorem valid_of_civilTime {zone : TimeZone} {seconds : ℤ} {dt : DateTime}
    (h : civilTime zone seconds = .ok dt) (hyear : 0 ≤ dt.year) : dt.Valid := by
  unfold civilTime at h
  split at h
  · obtain ⟨⟨localTime, offset⟩, hlocal, rfl⟩ := exists_of_map_eq_ok h
    obtain ⟨data, -, hlocal⟩ := exists_of_bind_eq_ok hlocal
    obtain ⟨type, -, hlocal⟩ := exists_of_bind_eq_ok hlocal
    obtain ⟨localSeconds, -, hlocal⟩ := exists_of_bind_eq_ok hlocal
    obtain ⟨broken, hbroken, hlocal⟩ := exists_of_bind_eq_ok hlocal
    cases hlocal
    exact valid_of_breakTime hbroken hyear
  · exact valid_of_breakTime h hyear

theorem HasYear.renderTime {zone : TimeZone} {seconds : ℤ} (h : HasYear zone seconds) :
    ∃ text, renderTime zone seconds = .ok text := by
  obtain ⟨dt, hdt, hlow, hhigh⟩ := h
  have hlength := length_dateTimeText (valid_of_civilTime hdt hlow) hlow hhigh
  exact ⟨dateTimeText dt, by
    simp [LogTime.renderTime, hdt, hlength, bind, Except.bind, pure, Except.pure]⟩

theorem length_of_renderTime {zone : TimeZone} {seconds : ℤ} {text : List UInt8}
    (h : renderTime zone seconds = .ok text) : text.length = 17 := by
  obtain ⟨dt, -, h⟩ := exists_of_bind_eq_ok h
  obtain ⟨⟨⟩, hcheck, h⟩ := exists_of_bind_eq_ok h
  have htext : dateTimeText dt = text := Except.ok.inj h
  rw [← htext]
  exact beq_iff_eq.mp (of_check hcheck)

variable {s u : LogTime} {t : ℤ} {text us : List UInt8}

/-- In a new second the text is rendered. -/
theorem formatTime_eq (hsecond : secondOf t ≠ s.lastSecond)
    (htext : renderTime s.zone (secondOf t) = .ok text) :
    s.formatTime t = (renderMicroseconds s.zone (microsecondsOf t)).map fun us =>
      ({ s with lastSecond := secondOf t, time := text }, text, us) := by
  have hlength := length_of_renderTime htext
  cases hus : renderMicroseconds s.zone (microsecondsOf t) <;>
    simp [formatTime, refresh, hsecond, htext, hus, hlength, bind, Except.bind, pure, Except.pure,
      Except.map]

/-- In the second of the cache its text is shown, if there is one. -/
theorem formatTime_cached (hsecond : secondOf t = s.lastSecond) :
    s.formatTime t = (do
      let us ← renderMicroseconds s.zone (microsecondsOf t)
      check (s.time.length == 17)
      return (s, s.time, us)) := by
  simp [formatTime, refresh, hsecond, bind, Except.bind, pure, Except.pure]

theorem uncachedTime_eq (htext : renderTime s.zone (secondOf t) = .ok text) :
    uncachedTime s.zone t =
      (renderMicroseconds s.zone (microsecondsOf t)).map fun us => (text, us) := by
  cases hus : renderMicroseconds s.zone (microsecondsOf t) <;>
    simp [uncachedTime, htext, hus, bind, Except.bind, pure, Except.pure, Except.map]

/-- The cache after a record holds what the record has shown. -/
theorem of_formatTime (h : s.formatTime t = .ok (u, text, us)) :
    u.zone = s.zone ∧ u.lastSecond = secondOf t ∧ u.time = text := by
  obtain ⟨u', hrefresh, h⟩ := exists_of_bind_eq_ok h
  obtain ⟨us', -, h⟩ := exists_of_bind_eq_ok h
  obtain ⟨⟨⟩, -, h⟩ := exists_of_bind_eq_ok h
  cases h
  unfold refresh at hrefresh
  split at hrefresh
  · obtain ⟨text', -, hrefresh⟩ := exists_of_bind_eq_ok hrefresh
    cases hrefresh
    exact ⟨rfl, rfl, rfl⟩
  · next hsecond =>
    cases hrefresh
    exact ⟨rfl, (not_ne_iff.mp hsecond).symm, rfl⟩

/-! ## Histories -/

/-- The time zone that is set, and the last record: the zone then, and its second. -/
structure History where
  zone : TimeZone := {}
  last : Option (TimeZone × ℤ) := none

namespace History

def next (h : History) : Action → History
  | .setTimeZone tz => { h with zone := tz }
  | .record t => { h with last := some (h.zone, secondOf t) }

def after (v : List Action) : History := v.foldl next {}

@[simp] theorem after_append_singleton (v : List Action) (a : Action) :
    after (v ++ [a]) = (after v).next a := by
  rw [after, List.foldl_append]
  rfl

/-- The next record falls in another second than the last one, or the zones of both show
that second alike. The first record does not fall in the second 0. -/
def Settled (h : History) (t : ℤ) : Prop :=
  match h.last with
  | none => secondOf t ≠ 0
  | some (zone, seconds) =>
    secondOf t ≠ seconds ∨ renderTime zone seconds = renderTime h.zone seconds

end History

/-- What the cache holds. -/
structure Cached (h : History) (s : LogTime) : Prop where
  zone : s.zone = h.zone
  first : h.last = none → s.lastSecond = 0 ∧ s.time = []
  later : ∀ zone seconds, h.last = some (zone, seconds) →
    s.lastSecond = seconds ∧ renderTime zone seconds = .ok s.time

/-- The record shows what it would show without the cache. -/
def ShowsOwn (s : LogTime) (t : ℤ) : Prop :=
  (s.formatTime t).map Prod.snd = uncachedTime s.zone t

variable {h : History}

/-- **Step lemma** for `setTimeZone`. -/
theorem Cached.setTimeZone (hs : Cached h s) (tz : TimeZone) :
    Cached (h.next (.setTimeZone tz)) { s with zone := tz } :=
  ⟨rfl, hs.first, hs.later⟩

/-- **Step lemma** for a record that shows its own second. -/
theorem Cached.record (hs : Cached h s) (hown : ShowsOwn s t)
    (hrecord : (s.formatTime t).map Prod.fst = .ok u) : Cached (h.next (.record t)) u := by
  obtain ⟨⟨u', text, us⟩, hformat, rfl⟩ := exists_of_map_eq_ok hrecord
  obtain ⟨hzone, hsecond, htime⟩ := of_formatTime hformat
  rw [ShowsOwn, hformat] at hown
  obtain ⟨text', htext, hrest⟩ := exists_of_bind_eq_ok hown.symm
  obtain ⟨us', -, hrest⟩ := exists_of_bind_eq_ok hrest
  cases hrest
  refine ⟨hzone.trans hs.zone, nofun, ?_⟩
  rintro _ _ ⟨⟩
  exact ⟨hsecond, by rw [← hs.zone, htext, htime]⟩

/-- A record that does not fit fails an `assert` with and without the cache. -/
theorem showsOwn_of_not_fits (hfits : ¬ Fits t) (hyear : HasYear s.zone (secondOf t)) :
    ShowsOwn s t := by
  obtain ⟨text, htext⟩ := hyear.renderTime
  have hus : renderMicroseconds s.zone (microsecondsOf t) = .error .assertion :=
    ((renderMicroseconds_cases s.zone t).resolve_left fun h => hfits h.1).2
  rw [ShowsOwn, uncachedTime_eq htext, hus]
  by_cases hsecond : secondOf t = s.lastSecond
  · rw [formatTime_cached hsecond, hus]
    rfl
  · rw [formatTime_eq hsecond htext, hus]
    rfl

/-- **Which record shows its own second.** -/
theorem Cached.showsOwn_iff (hs : Cached h s) (hfits : Fits t)
    (hyear : HasYear s.zone (secondOf t)) : ShowsOwn s t ↔ h.Settled t := by
  obtain ⟨text, htext⟩ := hyear.renderTime
  obtain ⟨us, hus, -⟩ := ((renderMicroseconds_cases s.zone t).resolve_right
    fun h => h.1 hfits).2
  rw [ShowsOwn, uncachedTime_eq htext, hus]
  by_cases hsecond : secondOf t = s.lastSecond
  · rw [formatTime_cached hsecond, hus]
    cases hlast : h.last with
    | none =>
      -- no text yet: the `assert` of `T` fails
      obtain ⟨hzero, hempty⟩ := hs.first hlast
      rw [History.Settled, hlast]
      simp [hempty, hsecond, hzero, bind, Except.bind, Except.map]
    | some last =>
      obtain ⟨zone, seconds⟩ := last
      obtain ⟨hseconds, hcached⟩ := hs.later zone seconds hlast
      have hlength := length_of_renderTime hcached
      rw [hsecond, hseconds, hs.zone] at htext
      rw [History.Settled, hlast]
      simp [hlength, hsecond, hseconds, hcached, htext, bind, Except.bind, pure, Except.pure,
        Except.map]
  · rw [formatTime_eq hsecond htext, hus]
    refine iff_of_true rfl ?_
    cases hlast : h.last with
    | none =>
      rw [History.Settled, hlast, ← (hs.first hlast).1]
      exact hsecond
    | some last =>
      obtain ⟨zone, seconds⟩ := last
      rw [History.Settled, hlast]
      exact .inl ((hs.later zone seconds hlast).1 ▸ hsecond)

/-! ## Sequences of records -/

variable {v w : List Action}

/-- The years of the records are 0 to 9999. -/
def YearsInRange (v : List Action) : Action → Prop
  | .setTimeZone _ => True
  | .record t => HasYear (History.after v).zone (secondOf t)

/-- A record shows its own second in the zone that is set, as it would without the
cache. -/
def Faithful (v : List Action) : Action → Prop
  | .setTimeZone _ => True
  | .record t => ∀ s, machine.Run {} v s → ShowsOwn s t

/-- A record is settled. After a record that does not fit there is no other. -/
def SettledAfter (v : List Action) : Action → Prop
  | .setTimeZone _ => True
  | .record t => (∀ t', .record t' ∈ v ++ [.record t] → Fits t') → (History.after v).Settled t

/-- **Run lemma.** -/
theorem Cached.of_run (hrun : machine.Run {} w s) (hw : System.Respects Faithful w) :
    Cached (History.after w) s := by
  induction hrun with
  | nil => exact ⟨rfl, fun _ => ⟨rfl, rfl⟩, nofun⟩
  | @snoc w s u a hrun hstep ih =>
    obtain ⟨hbefore, hlast⟩ := System.respects_append_singleton.mp hw
    have hcached := ih hbefore
    rw [History.after_append_singleton]
    cases a with
    | setTimeZone tz =>
      cases hstep
      exact hcached.setTimeZone tz
    | record t => exact hcached.record (hlast s hrun) (Eq.symm hstep)

theorem fits_of_run (hrun : machine.Run {} w s) (ht : .record t ∈ w) : Fits t := by
  induction hrun with
  | nil => cases ht
  | @snoc w s u a _ hstep ih =>
    rcases List.mem_append.mp ht with hbefore | hlast
    · exact ih hbefore
    · obtain rfl := List.mem_singleton.mp hlast
      obtain ⟨⟨u', text, us⟩, hformat, -⟩ := exists_of_map_eq_ok (Eq.symm hstep)
      obtain ⟨s', -, hformat⟩ := exists_of_bind_eq_ok hformat
      obtain ⟨us', hus, -⟩ := exists_of_bind_eq_ok hformat
      by_contra hfits
      have herror := ((renderMicroseconds_cases s'.zone t).resolve_left fun h => hfits h.1).2
      cases herror.symm.trans hus

/-- Records that fit and show their own second do not fail. -/
theorem exists_run (hw : System.Respects Faithful w) (hyears : System.Respects YearsInRange w)
    (hfits : ∀ t, .record t ∈ w → Fits t) : ∃ s, machine.Run {} w s := by
  have hall : System.Respects (fun v a => (System.Respects Faithful v ∧ Faithful v a) ∧
      YearsInRange v a ∧ ∀ t, a = .record t → Fits t) w := by
    intro v a hv
    refine ⟨⟨hw.of_prefix ((List.prefix_append ..).trans hv), hw v a hv⟩, hyears v a hv, ?_⟩
    rintro t rfl
    exact hfits t (hv.subset (by simp))
  refine hall.exists_run fun {v s a} hrun ha => ?_
  obtain ⟨⟨hbefore, hfaithful⟩, hyear, hfit⟩ := ha
  have hcached := Cached.of_run hrun hbefore
  cases a with
  | setTimeZone tz => exact ⟨_, rfl⟩
  | record t =>
    have hown := hfaithful s hrun
    have hyear' : HasYear (History.after v).zone (secondOf t) := hyear
    rw [← hcached.zone] at hyear'
    obtain ⟨text, htext⟩ := hyear'.renderTime
    obtain ⟨us, hus, -⟩ := ((renderMicroseconds_cases s.zone t).resolve_right
      fun h => h.1 (hfit t rfl)).2
    rw [ShowsOwn, uncachedTime_eq htext, hus] at hown
    obtain ⟨⟨u, text', us'⟩, hformat, -⟩ := exists_of_map_eq_ok hown
    refine ⟨u, ?_⟩
    show _ = (s.formatTime t).map Prod.fst
    rw [hformat]
    rfl

/-- **Which records show their own second.** Let the years of the records be 0 to 9999.
Then every record of a sequence shows its own second in the zone that is set, as it would
without the cache, exactly if no record falls in the same second as the one before it
unless their zones show that second alike, and the first record does not fall in the
second 0. -/
theorem cached_time_faithful_iff (hyears : System.Respects YearsInRange w) :
    System.Respects Faithful w ↔ System.Respects SettledAfter w := by
  induction w using List.reverseRecOn with
  | nil => exact iff_of_true (System.respects_nil _) (System.respects_nil _)
  | append_singleton w a ih =>
    obtain ⟨hyears', hyear⟩ := System.respects_append_singleton.mp hyears
    rw [System.respects_append_singleton, System.respects_append_singleton, ih hyears',
      and_congr_right_iff]
    intro hsettled
    have hw := (ih hyears').mpr hsettled
    cases a with
    | setTimeZone tz => exact Iff.rfl
    | record t =>
      constructor
      · intro hfaithful hfits
        obtain ⟨s, hrun⟩ := exists_run hw hyears' fun t' ht' => hfits t' (by simp [ht'])
        have hcached := Cached.of_run hrun hw
        exact (hcached.showsOwn_iff (hfits t (by simp)) (hcached.zone ▸ hyear)).mp
          (hfaithful s hrun)
      · intro hsettled s hrun
        have hcached := Cached.of_run hrun hw
        have hyear' : HasYear s.zone (secondOf t) := hcached.zone ▸ hyear
        by_cases hfits : Fits t
        · refine (hcached.showsOwn_iff hfits hyear').mpr (hsettled fun t' ht' => ?_)
          rcases List.mem_append.mp ht' with hbefore | hlast
          · exact fits_of_run hrun hbefore
          · cases List.mem_singleton.mp hlast
            exact hfits
        · exact showsOwn_of_not_fits hfits hyear'

/-- A time zone eight hours east of UTC. -/
def beijing : TimeZone := .fixed 28800 (bytes "CST")

/-- A record in UTC and one in Beijing. -/
theorem yearsInRange_beijing {t : ℤ} (h : HasYear beijing (secondOf t)) :
    System.Respects YearsInRange [.record 1000000000000000, .setTimeZone beijing, .record t] := by
  have hfirst := System.respects_append_singleton.mpr ⟨System.respects_nil YearsInRange,
    show YearsInRange [] (.record 1000000000000000) from
      ⟨⟨2001, 9, 9, 1, 46, 40⟩, by decide +kernel⟩⟩
  have hset := System.respects_append_singleton.mpr ⟨hfirst,
    show YearsInRange _ (.setTimeZone beijing) from trivial⟩
  exact System.respects_append_singleton.mpr ⟨hset, show YearsInRange _ (.record t) from h⟩

/-- A record in each of two seconds, and a change of the time zone between them. -/
theorem cached_time_faithful_two_seconds : System.Respects Faithful
    [.record 1000000000000000, .setTimeZone beijing, .record 1000000001000000] := by
  have hyears := yearsInRange_beijing (t := 1000000001000000)
    ⟨⟨2001, 9, 9, 9, 46, 41⟩, by decide +kernel⟩
  have hfirst := System.respects_append_singleton.mpr ⟨System.respects_nil SettledAfter,
    show SettledAfter [] (.record 1000000000000000) from
      fun _ => show secondOf 1000000000000000 ≠ 0 by decide +kernel⟩
  have hset := System.respects_append_singleton.mpr ⟨hfirst,
    show SettledAfter _ (.setTimeZone beijing) from trivial⟩
  have hsecond := System.respects_append_singleton.mpr ⟨hset,
    show SettledAfter _ (.record 1000000001000000) from
      fun _ => .inl (show secondOf 1000000001000000 ≠ secondOf 1000000000000000 by decide +kernel)⟩
  exact (cached_time_faithful_iff hyears).mpr hsecond

/-- Two records of one second, and a change of the time zone between them: the second one
shows the time of the old zone. -/
theorem second_of_old_zone :
    ¬ ∀ w, System.Respects YearsInRange w → System.Respects Faithful w := by
  intro hall
  have hyears := yearsInRange_beijing (t := 1000000000000000)
    ⟨⟨2001, 9, 9, 9, 46, 40⟩, by decide +kernel⟩
  have hrecord : machine.step {} (.record 1000000000000000)
      (.ok ⟨{}, 1000000000, bytes "20010909 01:46:40"⟩) := by
    show Except.ok _ = (formatTime {} 1000000000000000).map Prod.fst
    decide +kernel
  have hset : machine.step ⟨{}, 1000000000, bytes "20010909 01:46:40"⟩ (.setTimeZone beijing)
      (.ok ⟨beijing, 1000000000, bytes "20010909 01:46:40"⟩) := rfl
  have hown : ShowsOwn ⟨beijing, 1000000000, bytes "20010909 01:46:40"⟩ 1000000000000000 :=
    hall _ hyears [.record 1000000000000000, .setTimeZone beijing] _ List.prefix_rfl _
      (.cons hrecord (.single hset))
  exact absurd hown (by unfold ShowsOwn; decide +kernel)

/-- What `formatTime` streams is what the header of a `Logger` begins with. -/
theorem exists_environment (h : s.formatTime t = .ok (u, text, us)) {data : List UInt8}
    (size : data.length = kSmallBuffer) (tidString : List UInt8) (strerror : ℤ → List UInt8) :
    ∃ env : Logger.Environment, env.data = data ∧ env.time = text ∧ env.us = us ∧
      env.tidString = tidString ∧ env.strerror = strerror := by
  obtain ⟨s', -, h⟩ := exists_of_bind_eq_ok h
  obtain ⟨us', hus, h⟩ := exists_of_bind_eq_ok h
  obtain ⟨⟨⟩, hcheck, h⟩ := exists_of_bind_eq_ok h
  cases h
  have htext : u.time.length = 17 := beq_iff_eq.mp (of_check hcheck)
  have hlength : us.length = 8 ∨ us.length = 9 := by
    rcases renderMicroseconds_cases u.zone t with ⟨-, us', hus', hlength⟩ | ⟨-, herror⟩
    · cases hus.symm.trans hus'
      exact hlength
    · cases hus.symm.trans herror
  exact ⟨⟨data, size, u.time, htext, us, hlength, tidString, strerror⟩, rfl, rfl, rfl, rfl, rfl⟩

end LogTime

end Dxian
