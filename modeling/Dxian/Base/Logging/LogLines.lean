import Dxian.Base.Logging.SteadyZone

/-!
# The lines of a log

A line starts with the time of its record, whatever is streamed behind it and however much of
that is dropped. In UTC the lines of a process are in the order of their times, as strings.

## Main results

- `Logger.starts_with_time` — the time always fits
- `log_lines_in_time_order` — the lines of a log that several threads write
-/

namespace Dxian

open LogTime

namespace Logger

variable {env : Environment} {how : Construction} {values : List Piece}

theorem header_pieces (env : Environment) (how : Construction) :
    ∃ rest, how.pieces env = .append env.time :: .append env.us :: rest := by
  cases how <;> exact ⟨_, rfl⟩

/-- The first operands find the whole buffer free. -/
theorem starts_with_time (env : Environment) (how : Construction) (values : List Piece) :
    env.time ++ env.us <+:
      (Piece.kept kSmallBuffer (how.pieces env ++ values)).flatMap Piece.rendering := by
  obtain ⟨rest, hrest⟩ := header_pieces env how
  have htime : (Piece.append env.time).Fits kSmallBuffer := by
    show (env.time.length : ℤ) < 4000
    rw [env.time_length]
    decide
  have hus : (Piece.append env.us).Fits
      (kSmallBuffer - (Piece.append env.time).rendering.length) := by
    show (env.us.length : ℤ) < 4000 - env.time.length
    rw [env.time_length]
    rcases env.us_length with h | h <;> rw [h] <;> decide
  rw [hrest, List.cons_append, List.cons_append, Piece.kept, if_pos htime, Piece.kept, if_pos hus,
    List.flatMap_cons, List.flatMap_cons, ← List.append_assoc]
  exact List.prefix_append ..

/-- What a record hands to the output function starts with its time. -/
theorem exists_output (env : Environment) (file : SourceFile) (line : CIntValue)
    (how : Construction) (values : List Piece) :
    ∃ logger out, (new env file line how >>= fun logger => logger.put values) = .ok logger ∧
      logger.destroy = .ok out ∧ env.time ++ env.us <+: out.msg := by
  obtain ⟨logger, hlogger, -, hvalid, hcontents⟩ := new_put_eq env file line how values
  obtain ⟨out, hout, hmsg⟩ := destroy_eq hvalid
  refine ⟨logger, out, hlogger, hout, ?_⟩
  rw [hmsg, hcontents]
  exact (starts_with_time env how values).trans (List.prefix_append ..)

end Logger

/-- The lines of the records at the time `t`, of threads that have only shown UTC: any
constructor, any source line and any values. -/
inductive UtcLine (t : ℤ) : List UInt8 → Prop
  | mk {v : List Action} {s u : LogTime} {env : Logger.Environment} {file : SourceFile}
      {line : CIntValue} {how : Logger.Construction} {values : List Piece} {logger : Logger}
      {out : Logger.Output} : UtcRecord v s t → s.formatTime t = .ok (u, env.time, env.us) →
      (Logger.new env file line how >>= fun logger => logger.put values) = .ok logger →
      logger.destroy = .ok out → UtcLine t out.msg

theorem UtcLine.starts_with_time {t : ℤ} {msg : List UInt8} (h : UtcLine t msg) :
    (Timestamp.mk t).toFormattedString true ++ bytes "Z " <+: msg := by
  cases h with
  | @mk v s u env file line how values logger out hrecord hformat hlogger hout =>
    obtain ⟨_, _, _, hformat', htext⟩ := hrecord.formatTime_eq
    cases hformat.symm.trans hformat'
    obtain ⟨_, _, hlogger', hout', hprefix⟩ := Logger.exists_output env file line how values
    cases hlogger'.symm.trans hlogger
    cases hout'.symm.trans hout
    rw [← htext]
    exact hprefix

theorem UtcLine.inYears {t : ℤ} {msg : List UInt8} (h : UtcLine t msg) (ht : 0 ≤ t) :
    (Timestamp.mk t).InYears := by
  cases h with
  | mk hrecord _ _ _ => exact hrecord.inYears ht

/-- **The lines of a log are in the order of time.** Every record in UTC of the years 0 to 9999,
whose microseconds fit and whose thread has not logged second 0 first, gives a line whose first
26 characters are the time of the record, even if the rest does not fit into the buffer.
Of two lines from 1970 on, written by whatever threads, the earlier one is the smaller
string: a merged log that is sorted by its lines is sorted by time. -/
theorem log_lines_in_time_order :
    (∀ v s t, UtcRecord v s t → ∀ (env : Logger.Environment) (u : LogTime),
      s.formatTime t = .ok (u, env.time, env.us) →
      ∀ (file : SourceFile) (line : CIntValue) (how : Logger.Construction) (values : List Piece),
        ∃ logger out, (Logger.new env file line how >>= fun logger => logger.put values) =
          .ok logger ∧ logger.destroy = .ok out ∧
          (Timestamp.mk t).toFormattedString true ++ bytes "Z " <+: out.msg) ∧
    ∀ t t' msg msg', UtcLine t msg → UtcLine t' msg' → 0 ≤ t → t < t' → msg < msg' := by
  constructor
  · intro v s t hrecord env u hformat file line how values
    obtain ⟨logger, out, hlogger, hout, -⟩ := Logger.exists_output env file line how values
    exact ⟨logger, out, hlogger, hout, (UtcLine.mk hrecord hformat hlogger hout).starts_with_time⟩
  · intro t t' msg msg' h h' ht hlt
    have hin := h.inYears ht
    have hin' := h'.inYears (ht.trans hlt.le)
    have htime := (Timestamp.toFormattedString_lt_iff hin hin').1.mpr hlt
    have hlength := hin.length_toFormattedString.1.trans hin'.length_toFormattedString.1.symm
    obtain ⟨rest, rfl⟩ := h.starts_with_time
    obtain ⟨rest', rfl⟩ := h'.starts_with_time
    rw [List.append_assoc, List.append_assoc, List.append_lt_append_iff hlength]
    exact .inl htime

/-- The first record of a thread gives a line. -/
theorem exists_utcLine {t : ℤ} (h : UtcRecord [] {} t) : ∃ msg, UtcLine t msg := by
  have hcivil : civilTime {} (secondOf t) = .ok (civil (secondOf t)) :=
    breakTime_eq_gmtime_r h.years.inDateRange
  obtain ⟨u, hu⟩ := (Steady.of_run h.run (by simp)).formatTime_eq
    (renderTime_of_civilTime h.years hcivil) h.fits h.first
  have hus : (suffix {} t).length = 9 := by
    show (bytes "." ++ zeroPadded 6 (microsecondsOf t) ++ bytes "Z ").length = 9
    rw [List.length_append, List.length_append, (length_microseconds_iff t).mpr h.fits]
    rfl
  have henv : ∃ env : Logger.Environment,
      env.time = dateTimeText (civil (secondOf t)) ∧ env.us = suffix {} t :=
    ⟨{ data := List.replicate kSmallBuffer 0
       size := List.length_replicate
       time := dateTimeText (civil (secondOf t))
       time_length := (civil_columns h.years.1 h.years.2).length_dateTimeText
       us := suffix {} t
       us_length := .inr hus
       tidString := []
       strerror := fun _ => [] }, rfl, rfl⟩
  obtain ⟨env, htime, husEnv⟩ := henv
  rw [← htime, ← husEnv] at hu
  obtain ⟨logger, out, hlogger, hout, -⟩ :=
    Logger.exists_output env ⟨bytes "a.cc"⟩ ⟨1, by decide⟩ .plain []
  exact ⟨out.msg, .mk h hu hlogger hout⟩

/-- Two lines in one second. -/
theorem log_lines_in_time_order_2001 : ∃ msg msg', UtcLine 1000000000000000 msg ∧
    UtcLine 1000000000000001 msg' ∧ msg < msg' := by
  obtain ⟨msg, hmsg⟩ := exists_utcLine (t := 1000000000000000)
    ⟨⟨.inr (by decide +kernel), by decide +kernel⟩, .nil, nofun, by decide +kernel⟩
  obtain ⟨msg', hmsg'⟩ := exists_utcLine (t := 1000000000000001)
    ⟨⟨.inr (by decide +kernel), by decide +kernel⟩, .nil, nofun, by decide +kernel⟩
  exact ⟨msg, msg', hmsg, hmsg',
    log_lines_in_time_order.2 _ _ _ _ hmsg hmsg' (by decide) (by decide)⟩

end Dxian
