import Dxian.Base.Logging.LogStream

/-!
# Loggers

A `Logger` streams a header, then the values that it is given, and its destructor a trailer
with the source file, the line and a newline. The trailer is streamed into what the buffer
has left.

## Main results

- `record_terminated_iff` — when the newline is part of the record
-/

namespace Dxian

/-- `Logger::LogLevel`. -/
inductive LogLevel
  | trace
  | debug
  | info
  | warn
  | error
  | fatal
deriving DecidableEq

/-- `LogLevelName`. -/
def LogLevel.name : LogLevel → List UInt8
  | trace => bytes "TRACE "
  | debug => bytes "DEBUG "
  | info => bytes "INFO  "
  | warn => bytes "WARN  "
  | error => bytes "ERROR "
  | fatal => bytes "FATAL "

/-- A value of type `int`. -/
def CIntValue := { n : ℤ // IntType.int.Contains n }

/-- `operator<<(int)`. -/
def Piece.int (n : CIntValue) : Piece := .integer ⟨.int, n.1, n.2⟩

/-- A text with a NUL behind it. -/
def Piece.literal (s : String) : Piece := .cstring (some (bytes s))

/-- `Logger::SourceFile`. -/
structure SourceFile where
  data : List UInt8
deriving DecidableEq

/-- The constructors of `SourceFile`: what follows the last slash of a path. -/
def SourceFile.ofPath (path : List UInt8) : SourceFile :=
  ⟨(path.reverse.takeWhile (· != 0x2f)).reverse⟩

namespace Logger

/-- What the constructors find: an uninitialized array, the time that `formatTime` renders, the
name of the thread and the texts of the errors. -/
structure Environment where
  data : List UInt8
  size : data.length = kSmallBuffer
  time : List UInt8
  time_length : time.length = 17
  us : List UInt8
  us_length : us.length = 8 ∨ us.length = 9
  tidString : List UInt8
  strerror : ℤ → List UInt8

/-- The four constructors of `Logger`; the last one takes `errno` from the environment. -/
inductive Construction
  | plain
  | withFunc (level : LogLevel) (func : Option (List UInt8))
  | withLevel (level : LogLevel)
  | sys (toAbort : Bool) (errno : CIntValue)

/-- What the constructor of `Impl` streams, from `formatTime` on. -/
def header (env : Environment) (level : LogLevel) (savedErrno : CIntValue) : List Piece :=
  [.append env.time, .append env.us, .append env.tidString, .append level.name] ++
    if savedErrno.1 ≠ 0 then
      [.cstring (some (env.strerror savedErrno.1)), .literal " (errno=", .int savedErrno,
        .literal ") "]
    else []

def Construction.logLevel : Construction → LogLevel
  | plain => .info
  | withFunc level _ => level
  | withLevel level => level
  | sys toAbort _ => if toAbort then .fatal else .error

/-- What a constructor of `Logger` streams. -/
def Construction.pieces (env : Environment) : Construction → List Piece
  | plain => header env .info ⟨0, by decide⟩
  | withFunc level func => header env level ⟨0, by decide⟩ ++ [.cstring func, .char 0x20]
  | withLevel level => header env level ⟨0, by decide⟩
  | sys toAbort errno => header env (if toAbort then .fatal else .error) errno

end Logger

/-- `class Logger`. -/
structure Logger where
  stream : LogStream
  level : LogLevel
  line : CIntValue
  basename : SourceFile

namespace Logger

/-- A constructor of `Logger`. -/
def new (env : Environment) (file : SourceFile) (line : CIntValue) (how : Construction) :
    Except Fault Logger := do
  let stream ← (LogStream.fresh env.data).putAll (how.pieces env)
  return { stream := stream, level := how.logLevel, line := line, basename := file }

/-- `stream() << ...` of the values of a record. -/
def put (logger : Logger) (values : List Piece) : Except Fault Logger := do
  let stream ← logger.stream.putAll values
  return { logger with stream := stream }

/-- What `Logger::Impl::finish` streams before the newline. -/
def trailer (logger : Logger) : List Piece :=
  [.literal " - ", .append logger.basename.data, .char 0x3a, .int logger.line]

def newline : Piece := .char 0x0a

/-- `Logger::Impl::finish`. -/
def finish (logger : Logger) : Except Fault Logger := logger.put (logger.trailer ++ [newline])

/-- What the destructor hands to the output function, and whether it then aborts. -/
structure Output where
  msg : List UInt8
  aborts : Bool

/-- `Logger::~Logger`. -/
def destroy (logger : Logger) : Except Fault Output := do
  let logger ← logger.finish
  return { msg := logger.stream.contents, aborts := logger.level = .fatal }

/-- The record ends with the newline of `finish`, behind what is there before it. -/
def Terminated (logger : Logger) (out : Output) : Prop :=
  ∃ before, logger.put logger.trailer = .ok before ∧ out.msg = before.stream.contents ++ [0x0a]

/-- The bytes that the header and the values of a record leave. -/
def free (env : Environment) (how : Construction) (values : List Piece) : ℤ :=
  kSmallBuffer -
    ((Piece.kept kSmallBuffer (how.pieces env ++ values)).flatMap Piece.rendering).length

/-- The newline fits behind a trailer, given the free bytes and the length of a file's name. -/
def NewlineFits (free : ℤ) (n : ℕ) : Prop :=
  let left := if 3 < free then free - 3 else free
  ¬ (left = n + 1 ∨ left = n + 2 ∨ left ≤ n ∧ left ≤ 2)

instance (free : ℤ) (n : ℕ) : Decidable (NewlineFits free n) :=
  inferInstanceAs (Decidable (¬ _))

/-! ## The trailer -/

section Trailer

variable {s : LogStream}

/-- The free bytes after an operand. -/
theorem put_avail (h : s.Valid) (p : Piece) : ∃ t, s.put p = .ok t ∧ t.Valid ∧
    t.avail = if p.Fits s.avail then s.avail - p.rendering.length else s.avail := by
  obtain ⟨t, ht, hvalid, hcontents⟩ := h.put p
  refine ⟨t, ht, hvalid, ?_⟩
  have hbefore := h.avail_eq
  have hafter := hvalid.avail_eq
  rw [hcontents, List.length_append] at hafter
  by_cases hfits : p.Fits s.avail
  · rw [if_pos hfits] at hafter ⊢
    omega
  · rw [if_neg hfits, List.length_nil] at hafter
    rw [if_neg hfits]
    omega

theorem length_int (n : CIntValue) : (Piece.int n).rendering.length ≤ 20 :=
  length_decimal_le (IntType.Contains.bounds n.2).1 (IntType.Contains.bounds n.2).2

/-- What the trailer leaves for the newline. -/
theorem trailer_avail {logger : Logger} (h : logger.stream.Valid) :
    ∃ t, logger.stream.putAll logger.trailer = .ok t ∧ t.Valid ∧
      (1 < t.avail ↔ NewlineFits logger.stream.avail logger.basename.data.length) := by
  have hpos := h.avail_pos
  obtain ⟨t₁, ht₁, hvalid₁, havail₁⟩ := put_avail h (.literal " - ")
  obtain ⟨t₂, ht₂, hvalid₂, havail₂⟩ := put_avail hvalid₁ (.append logger.basename.data)
  obtain ⟨t₃, ht₃, hvalid₃, havail₃⟩ := put_avail hvalid₂ (.char 0x3a)
  obtain ⟨t₄, ht₄, hvalid₄, havail₄⟩ := put_avail hvalid₃ (.int logger.line)
  refine ⟨t₄, ?_, hvalid₄, ?_⟩
  · rw [trailer, LogStream.putAll, ht₁]
    show LogStream.putAll t₁ _ = _
    rw [LogStream.putAll, ht₂]
    show LogStream.putAll t₂ _ = _
    rw [LogStream.putAll, ht₃]
    show LogStream.putAll t₃ _ = _
    rw [LogStream.putAll, ht₄]
    rfl
  · have hline := length_int logger.line
    have hdash : t₁.avail =
        if 3 < logger.stream.avail then logger.stream.avail - 3 else logger.stream.avail := havail₁
    have hname : t₂.avail = if (logger.basename.data.length : ℤ) < t₁.avail then
        t₁.avail - logger.basename.data.length else t₁.avail := havail₂
    have hcolon : t₃.avail = if 1 < t₂.avail then t₂.avail - 1 else t₂.avail := havail₃
    have hnumber : t₄.avail = if 48 ≤ t₃.avail then
        t₃.avail - (Piece.int logger.line).rendering.length else t₃.avail := havail₄
    have hpos₁ : 1 ≤ t₁.avail := hvalid₁.avail_pos
    rw [NewlineFits, ← hdash]
    -- the line number is written only where it leaves enough
    have hlast : 1 < t₄.avail ↔ 2 < t₂.avail := by
      split_ifs at hnumber hcolon <;> omega
    rw [hlast]
    show _ ↔ ¬ (t₁.avail = _ ∨ t₁.avail = _ ∨ _)
    split_ifs at hname <;> omega

end Trailer

/-- The record up to the trailer. -/
theorem new_put_eq (env : Environment) (file : SourceFile) (line : CIntValue)
    (how : Construction) (values : List Piece) :
    ∃ logger, (new env file line how >>= fun logger => logger.put values) = .ok logger ∧
      logger.basename = file ∧ logger.stream.Valid ∧ logger.stream.contents =
        (Piece.kept kSmallBuffer (how.pieces env ++ values)).flatMap Piece.rendering := by
  have hfresh := LogStream.valid_fresh env.size
  obtain ⟨s, hs, hvalid, -⟩ := hfresh.putAll (how.pieces env)
  obtain ⟨t, ht, hvalid', hcontents⟩ := hfresh.putAll (how.pieces env ++ values)
  have hvalues : s.putAll values = .ok t := by
    rw [← LogStream.putAll_append hs]
    exact ht
  refine ⟨⟨t, how.logLevel, line, file⟩, ?_, rfl, hvalid', ?_⟩
  · rw [new, hs]
    show (s.putAll values >>= _) = _
    rw [hvalues]
    rfl
  · rw [hfresh.avail_eq] at hcontents
    exact hcontents

/-- What the destructor hands over. -/
theorem destroy_eq {logger : Logger} (h : logger.stream.Valid) :
    ∃ out, logger.destroy = .ok out ∧ out.msg = logger.stream.contents ++
      (Piece.kept logger.stream.avail (logger.trailer ++ [newline])).flatMap Piece.rendering := by
  obtain ⟨t, ht, -, hcontents⟩ := h.putAll (logger.trailer ++ [newline])
  refine ⟨⟨t.contents, logger.level = .fatal⟩, ?_, hcontents⟩
  rw [destroy, finish, put, ht]
  rfl

/-- The newline is kept if it fits behind the trailer. -/
theorem terminated_iff {logger : Logger} (h : logger.stream.Valid) :
    ∃ out, logger.destroy = .ok out ∧ (Terminated logger out ↔
      NewlineFits logger.stream.avail logger.basename.data.length) := by
  obtain ⟨t, ht, hvalid, havail⟩ := trailer_avail h
  obtain ⟨u, hu, -, hcontents⟩ := hvalid.put newline
  have hbefore : logger.put logger.trailer = .ok { logger with stream := t } := by
    rw [put, ht]
    rfl
  have hfinish : logger.finish = .ok { logger with stream := u } := by
    rw [finish, put, LogStream.putAll_append ht, LogStream.putAll, hu]
    rfl
  refine ⟨⟨u.contents, logger.level = .fatal⟩, ?_, ?_⟩
  · rw [destroy, hfinish]
    rfl
  · rw [← havail]
    constructor
    · intro hterminated
      obtain ⟨before, hput, hmsg⟩ := hterminated
      by_contra hfull
      -- without the newline the record is a byte too short
      have hdropped : ¬ newline.Fits t.avail := hfull
      cases hbefore.symm.trans hput
      have hlength := congrArg List.length (hmsg.symm.trans hcontents)
      rw [if_neg hdropped, List.append_nil, List.length_append] at hlength
      exact Nat.succ_ne_self _ hlength
    · intro hroom
      have hkept : newline.Fits t.avail := hroom
      rw [if_pos hkept] at hcontents
      exact ⟨_, hbefore, hcontents⟩

/-- **Which records are terminated.** -/
theorem record_terminated_iff (env : Environment) (file : SourceFile) (line : CIntValue)
    (how : Construction) (values : List Piece) :
    ∃ logger out, (new env file line how >>= fun logger => logger.put values) = .ok logger ∧
      logger.destroy = .ok out ∧
      (Terminated logger out ↔ NewlineFits (free env how values) file.data.length) := by
  obtain ⟨logger, hlogger, hbasename, hvalid, hcontents⟩ := new_put_eq env file line how values
  obtain ⟨out, hout, hiff⟩ := terminated_iff hvalid
  rw [hvalid.avail_eq, hcontents, hbasename] at hiff
  exact ⟨logger, out, hlogger, hout, hiff⟩

/-- The first record of a program, in UTC. -/
def environment : Environment where
  data := List.replicate kSmallBuffer 0
  size := List.length_replicate
  time := bytes "20240204 08:00:00"
  time_length := rfl
  us := bytes ".000000Z "
  us_length := .inr rfl
  tidString := bytes " 4711 "
  strerror _ := []

/-- A text that leaves one byte behind the header. -/
def longText : List Piece := [.string (List.replicate 3961 0x61)]

theorem long_record_not_terminated :
    free environment .plain longText = 1 ∧
    ∃ logger out, (new environment (.ofPath (bytes "src/a.cc")) ⟨1, by decide⟩ .plain >>=
        fun logger => logger.put longText) = .ok logger ∧
      logger.destroy = .ok out ∧ out.msg.getLast? = some 0x61 ∧ ¬ Terminated logger out := by
  have hfree : free environment .plain longText = 1 := by decide +kernel
  obtain ⟨logger, hlogger, hbasename, hvalid, hcontents⟩ := new_put_eq environment
    (.ofPath (bytes "src/a.cc")) ⟨1, by decide⟩ .plain longText
  have havail : logger.stream.avail = 1 := by
    rw [hvalid.avail_eq, hcontents]
    exact hfree
  obtain ⟨out, hout, hiff⟩ := terminated_iff hvalid
  refine ⟨hfree, logger, out, hlogger, hout, ?_, ?_⟩
  · obtain ⟨out', hout', hmsg⟩ := destroy_eq hvalid
    cases hout.symm.trans hout'
    have hname : ¬ (Piece.append logger.basename.data).Fits 1 := by
      rw [hbasename]
      decide
    have hline : ¬ (Piece.int logger.line).Fits 1 := by
      show ¬ LogStream.kMaxNumericSize ≤ 1
      decide
    have hnone : Piece.kept 1 (logger.trailer ++ [newline]) = [] := by
      show Piece.kept 1 [.literal " - ", .append logger.basename.data, .char 0x3a,
        .int logger.line, newline] = []
      simp only [Piece.kept]
      rw [if_neg (by decide), if_neg hname, if_neg (by decide), if_neg hline,
        if_neg (by decide)]
    rw [hmsg, havail, hnone, List.flatMap_nil, List.append_nil, hcontents]
    decide +kernel
  · rw [hiff, havail, hbasename]
    decide

end Logger

end Dxian
