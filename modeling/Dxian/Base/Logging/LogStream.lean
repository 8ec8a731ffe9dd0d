import Dxian.Base.Logging.Convert

/-!
# Log streams

`class LogStream` writes the text of its operands into a `FixedBuffer`. A text is kept if
more bytes are free than it has; a number is written in place, if `kMaxNumericSize` bytes are
free. What does not fit is dropped whole.

## Main results

- `put_of_fits`, `put_of_not_fits` — one operand
- `putAll_exact` — a sequence of operands
-/

namespace Dxian

/-- The integer types of `operator<<`. A `short` is converted to `int`, with the same value. -/
inductive IntType
  | short
  | unsignedShort
  | int
  | unsignedInt
  | long
  | unsignedLong
  | longLong
  | unsignedLongLong
deriving DecidableEq

namespace IntType

def bits : IntType → ℕ
  | short | unsignedShort => 16
  | int | unsignedInt => 32
  | long | unsignedLong | longLong | unsignedLongLong => 64

def signed : IntType → Bool
  | short | int | long | longLong => true
  | unsignedShort | unsignedInt | unsignedLong | unsignedLongLong => false

/-- The values of a type. -/
def Contains (type : IntType) (n : ℤ) : Prop :=
  if type.signed then -2 ^ (type.bits - 1) ≤ n ∧ n < 2 ^ (type.bits - 1)
  else 0 ≤ n ∧ n < 2 ^ type.bits

instance (type : IntType) (n : ℤ) : Decidable (type.Contains n) :=
  inferInstanceAs (Decidable (ite _ _ _))

theorem Contains.bounds {type : IntType} {n : ℤ} (h : type.Contains n) :
    -2 ^ 63 ≤ n ∧ n < 2 ^ 64 := by
  cases type <;> simp [Contains, signed, bits] at h <;> omega

end IntType

/-- A value of an integer type. -/
structure Integer where
  type : IntType
  value : ℤ
  inRange : type.Contains value

/-- The text of a `double` in the format `"%.12g"`, which `snprintf` does not cut off. -/
structure Double where
  text : List UInt8
  short : text.length < 48

/-- The operands of `operator<<`, and those of `LogStream::append`. -/
inductive Piece
  | bool (v : Bool)
  | integer (v : Integer)
  | pointer (p : UInt64)
  | double (v : Double)
  | char (v : UInt8)
  | cstring (str : Option (List UInt8))
  | string (v : List UInt8)
  | append (data : List UInt8)

/-- `kSmallBuffer`. -/
def kSmallBuffer : ℕ := 4000

/-- `class LogStream`. -/
structure LogStream where
  buffer : FixedBuffer
deriving DecidableEq

namespace LogStream

/-- `kMaxNumericSize`. -/
def kMaxNumericSize : ℤ := 48

/-- The stream that the constructor leaves, with an uninitialized array. -/
def fresh (data : List UInt8) : LogStream := ⟨{ data := data }⟩

/-- `LogStream::append`. -/
def append (s : LogStream) (data : List UInt8) : Except Fault LogStream := do
  let buffer ← s.buffer.append data
  return ⟨buffer⟩

/-- `LogStream::formatInteger`. -/
def formatInteger (s : LogStream) (v : ℤ) : Except Fault LogStream :=
  if kMaxNumericSize ≤ s.buffer.avail then do
    let (data, len) ← convert s.buffer.data s.buffer.cur v
    return ⟨{ s.buffer with data := data }.add len⟩
  else return s

/-- `operator<<(const void*)`. -/
def formatPointer (s : LogStream) (v : ℕ) : Except Fault LogStream :=
  if kMaxNumericSize ≤ s.buffer.avail then do
    let buf := s.buffer.cur
    let data ← store s.buffer.data buf 0x30
    let data ← store data (buf + 1) 0x78
    let (data, len) ← convertHex data (buf + 2) v
    return ⟨{ s.buffer with data := data }.add (len + 2)⟩
  else return s

/-- `operator<<(double)`. -/
def formatDouble (s : LogStream) (text : List UInt8) : Except Fault LogStream :=
  if kMaxNumericSize ≤ s.buffer.avail then do
    let data ← memcpy s.buffer.data s.buffer.cur (text ++ [0])
    return ⟨{ s.buffer with data := data }.add text.length⟩
  else return s

/-- `operator<<` and `append`. -/
def put (s : LogStream) : Piece → Except Fault LogStream
  | .bool v => s.append (if v then bytes "1" else bytes "0")
  | .integer v => s.formatInteger v.value
  | .pointer p => s.formatPointer p.toNat
  | .double v => s.formatDouble v.text
  | .char v => s.append [v]
  | .cstring (some str) => s.append (str.takeWhile (· != 0))
  | .cstring none => s.append (bytes "(null)")
  | .string v => s.append v
  | .append data => s.append data

/-- A chain of `operator<<`. -/
def putAll (s : LogStream) : List Piece → Except Fault LogStream
  | [] => .ok s
  | p :: ps => do
    let s ← s.put p
    s.putAll ps

/-- What has been streamed. -/
def contents (s : LogStream) : List UInt8 := s.buffer.contents

def avail (s : LogStream) : ℤ := s.buffer.avail

end LogStream

/-! ## Texts -/

namespace Piece

/-- The full text of an operand. -/
def rendering : Piece → List UInt8
  | bool v => if v then bytes "1" else bytes "0"
  | integer v => decimal v.value
  | pointer p => bytes "0x" ++ hexadecimal p.toNat
  | double v => v.text
  | char v => [v]
  | cstring (some str) => str.takeWhile (· != 0)
  | cstring none => bytes "(null)"
  | string v => v
  | append data => data

/-- The operands that are written in place. -/
def numeric : Piece → Bool
  | integer _ | pointer _ | double _ => true
  | _ => false

/-- What is written behind the text. -/
def terminator (p : Piece) : List UInt8 := if p.numeric then [0] else []

/-- The operand is kept if this many bytes are free. -/
def Fits (p : Piece) (avail : ℤ) : Prop :=
  if p.numeric then LogStream.kMaxNumericSize ≤ avail else (p.rendering.length : ℤ) < avail

instance (p : Piece) (avail : ℤ) : Decidable (p.Fits avail) :=
  inferInstanceAs (Decidable (ite _ _ _))

/-- The operands that are kept, if `avail` bytes are free at first. -/
def kept : ℤ → List Piece → List Piece
  | _, [] => []
  | avail, p :: ps =>
    if p.Fits avail then p :: kept (avail - p.rendering.length) ps else kept avail ps

theorem kept_sublist (avail : ℤ) (ps : List Piece) : (kept avail ps).Sublist ps := by
  induction ps generalizing avail with
  | nil => exact List.Sublist.refl []
  | cons p ps ih =>
    rw [kept]
    by_cases hfits : p.Fits avail
    · rw [if_pos hfits]
      exact (ih _).cons_cons p
    · rw [if_neg hfits]
      exact (ih _).cons p

/-- The reserve for a number suffices, with the NUL behind it. -/
theorem length_numeric {p : Piece} (h : p.numeric = true) : p.rendering.length + 1 ≤ 48 := by
  cases p with
  | integer v =>
    have hlength := length_decimal_le v.inRange.bounds.1 v.inRange.bounds.2
    show (decimal v.value).length + 1 ≤ 48
    omega
  | pointer p =>
    have hlength := length_hexadecimal_le p.toNat_lt
    show (bytes "0x" ++ hexadecimal p.toNat).length + 1 ≤ 48
    rw [List.length_append, show (bytes "0x").length = 2 by rfl]
    omega
  | double v => exact v.short
  | bool | char | cstring | string | append => cases h

end Piece

namespace LogStream

open Overwrite

/-- A stream with at least one free byte in its array. -/
def Valid (s : LogStream) : Prop := s.buffer.Valid kSmallBuffer

variable {s : LogStream}

/-- The stream with an operand written. -/
def written (s : LogStream) (p : Piece) : LogStream :=
  ⟨s.buffer.written p.rendering p.terminator⟩

theorem append_of_lt (h : s.Valid) {data : List UInt8} (hlt : (data.length : ℤ) < s.avail) :
    s.append data = .ok ⟨s.buffer.written data []⟩ := by
  rw [append, FixedBuffer.append_of_lt h (by decide) hlt]
  rfl

theorem append_of_le (h : s.Valid) {data : List UInt8} (hle : s.avail ≤ data.length) :
    s.append data = .ok s := by
  rw [append, FixedBuffer.append_of_le h hle]
  rfl

section Numeric

variable (h : s.Valid) (havail : kMaxNumericSize ≤ s.buffer.avail)
include h havail

theorem cur_le_of_avail : s.buffer.cur + 48 ≤ s.buffer.data.length := by
  have hsize := h.size
  rw [FixedBuffer.avail, kMaxNumericSize] at havail
  omega

theorem formatInteger_of_le (v : Integer) :
    s.formatInteger v.value = .ok (s.written (.integer v)) := by
  have hlength : (decimal v.value).length + 1 ≤ 48 := Piece.length_numeric (p := .integer v) rfl
  have hcur := cur_le_of_avail h havail
  rw [formatInteger, if_pos havail, convert_eq (by omega)]
  rfl

theorem formatPointer_of_le (p : UInt64) :
    s.formatPointer p.toNat = .ok (s.written (.pointer p)) := by
  have hlength : (bytes "0x" ++ hexadecimal p.toNat).length + 1 ≤ 48 :=
    Piece.length_numeric (p := .pointer p) rfl
  have hcur := cur_le_of_avail h havail
  rw [List.length_append, show (bytes "0x").length = 2 by rfl] at hlength
  have hzero : store s.buffer.data s.buffer.cur 0x30 =
      .ok (overwrite s.buffer.data s.buffer.cur [0x30]) := store_eq (by omega) _
  have hx : store (overwrite s.buffer.data s.buffer.cur [0x30]) (s.buffer.cur + 1) 0x78 =
      .ok (overwrite s.buffer.data s.buffer.cur (bytes "0x")) :=
    store_overwrite (by rw [List.length_singleton]; omega) _
  have hsize : (overwrite s.buffer.data s.buffer.cur (bytes "0x")).length = s.buffer.data.length :=
    length_overwrite (by rw [show (bytes "0x").length = 2 by rfl]; omega)
  have hwrite : overwrite (overwrite s.buffer.data s.buffer.cur (bytes "0x")) (s.buffer.cur + 2)
      (hexadecimal p.toNat ++ [0]) = overwrite s.buffer.data s.buffer.cur
        (bytes "0x" ++ (hexadecimal p.toNat ++ [0])) := overwrite_overwrite (by omega)
  rw [formatPointer, if_pos havail]
  show (store s.buffer.data s.buffer.cur 0x30 >>= _) = _
  rw [hzero]
  show (store (overwrite s.buffer.data s.buffer.cur [0x30]) (s.buffer.cur + 1) 0x78 >>= _) = _
  rw [hx]
  show (convertHex _ (s.buffer.cur + 2) p.toNat >>= _) = _
  rw [convertHex_eq (by omega), hwrite, ← List.append_assoc]
  show Except.ok (LogStream.mk ⟨_, _⟩) = Except.ok (LogStream.mk ⟨_, _⟩)
  rw [Piece.rendering, List.length_append, Nat.add_comm (hexadecimal p.toNat).length]
  rfl

theorem formatDouble_of_le (v : Double) :
    s.formatDouble v.text = .ok (s.written (.double v)) := by
  have hlength := v.short
  have hcur := cur_le_of_avail h havail
  have hfits : s.buffer.cur + (v.text ++ [0]).length ≤ s.buffer.data.length := by
    rw [List.length_append, List.length_singleton]
    omega
  rw [formatDouble, if_pos havail, memcpy, if_pos hfits]
  rfl

end Numeric

/-- **An operand that fits.** -/
theorem put_of_fits (h : s.Valid) {p : Piece} (hfits : p.Fits s.avail) :
    s.put p = .ok (s.written p) := by
  -- numbers are written in place, everything else is appended
  cases p with
  | integer v => exact formatInteger_of_le h hfits v
  | pointer p => exact formatPointer_of_le h hfits p
  | double v => exact formatDouble_of_le h hfits v
  | cstring str =>
    cases str with
    | some str => exact append_of_lt h hfits
    | none => exact append_of_lt h hfits
  | _ => exact append_of_lt h hfits

/-- **An operand that does not fit.** -/
theorem put_of_not_fits (h : s.Valid) {p : Piece} (hfits : ¬ p.Fits s.avail) :
    s.put p = .ok s := by
  cases p with
  | integer v => exact if_neg hfits
  | pointer p => exact if_neg hfits
  | double v => exact if_neg hfits
  | cstring str =>
    cases str with
    | some str => exact append_of_le h (Int.not_lt.mp hfits)
    | none => exact append_of_le h (Int.not_lt.mp hfits)
  | _ => exact append_of_le h (Int.not_lt.mp hfits)

/-- The text of an operand that fits, its NUL included, ends inside the array. -/
theorem length_of_fits (h : s.Valid) {p : Piece} (hfits : p.Fits s.avail) :
    s.buffer.cur + (p.rendering ++ p.terminator).length ≤ kSmallBuffer ∧
      s.buffer.cur + p.rendering.length < kSmallBuffer := by
  have hsize := h.size
  rw [Piece.Fits, avail, FixedBuffer.avail, hsize, kMaxNumericSize] at hfits
  rw [List.length_append, Piece.terminator]
  by_cases hnumeric : p.numeric = true
  · -- the reserve leaves room for the NUL
    have hlength := Piece.length_numeric hnumeric
    rw [if_pos hnumeric] at hfits ⊢
    rw [List.length_singleton]
    omega
  · rw [if_neg hnumeric] at hfits ⊢
    rw [List.length_nil]
    omega

theorem Valid.written (h : s.Valid) {p : Piece} (hfits : p.Fits s.avail) :
    (s.written p).Valid :=
  FixedBuffer.Valid.written h (length_of_fits h hfits).1 (length_of_fits h hfits).2

theorem Valid.contents_written (h : s.Valid) (p : Piece) :
    (s.written p).contents = s.contents ++ p.rendering :=
  FixedBuffer.Valid.contents_written h

theorem Valid.avail_eq (h : s.Valid) : s.avail = 4000 - s.contents.length :=
  FixedBuffer.Valid.avail_eq h

theorem Valid.avail_written (h : s.Valid) {p : Piece} (hfits : p.Fits s.avail) :
    (s.written p).avail = s.avail - p.rendering.length := by
  rw [(h.written hfits).avail_eq, h.avail_eq, h.contents_written, List.length_append]
  omega

/-- **Step lemma.** An operand is kept whole or dropped. -/
theorem Valid.put (h : s.Valid) (p : Piece) : ∃ t, s.put p = .ok t ∧ t.Valid ∧
    t.contents = s.contents ++ if p.Fits s.avail then p.rendering else [] := by
  by_cases hfits : p.Fits s.avail
  · refine ⟨_, put_of_fits h hfits, h.written hfits, ?_⟩
    rw [if_pos hfits, h.contents_written]
  · refine ⟨s, put_of_not_fits h hfits, h, ?_⟩
    rw [if_neg hfits, List.append_nil]

theorem putAll_append {ps qs : List Piece} {t : LogStream} (h : s.putAll ps = .ok t) :
    s.putAll (ps ++ qs) = t.putAll qs := by
  induction ps generalizing s with
  | nil =>
    cases h
    rfl
  | cons p ps ih =>
    show (s.put p >>= fun s => s.putAll (ps ++ qs)) = _
    rw [putAll] at h
    cases hput : s.put p with
    | error e =>
      rw [hput] at h
      cases h
    | ok u =>
      rw [hput] at h
      exact ih h

/-- **Run lemma.** A sequence of operands. -/
theorem Valid.putAll (h : s.Valid) (ps : List Piece) : ∃ t, s.putAll ps = .ok t ∧ t.Valid ∧
    t.contents = s.contents ++ (Piece.kept s.avail ps).flatMap Piece.rendering := by
  induction ps generalizing s with
  | nil => exact ⟨s, rfl, h, (List.append_nil _).symm⟩
  | cons p ps ih =>
    by_cases hfits : p.Fits s.avail
    · obtain ⟨t, ht, hvalid, hcontents⟩ := ih (h.written hfits)
      refine ⟨t, ?_, hvalid, ?_⟩
      · rw [LogStream.putAll, put_of_fits h hfits]
        exact ht
      · rw [hcontents, h.contents_written, h.avail_written hfits, Piece.kept, if_pos hfits,
          List.flatMap_cons, List.append_assoc]
    · obtain ⟨t, ht, hvalid, hcontents⟩ := ih h
      refine ⟨t, ?_, hvalid, ?_⟩
      · rw [LogStream.putAll, put_of_not_fits h hfits]
        exact ht
      · rw [hcontents, Piece.kept, if_neg hfits]

theorem valid_fresh {data : List UInt8} (hsize : data.length = kSmallBuffer) :
    (fresh data).Valid where
  size := hsize
  free := Nat.succ_pos _

/-- **A log stream never overruns its buffer.** Every write is inside the array, and a byte is
always left; what is committed stays as it is, and every operand is kept whole or dropped, by
its own rule. -/
theorem putAll_exact (data : List UInt8) (hsize : data.length = kSmallBuffer)
    (pieces : List Piece) :
    ∃ s, (fresh data).putAll pieces = .ok s ∧ 1 ≤ s.avail ∧
      s.contents = (Piece.kept kSmallBuffer pieces).flatMap Piece.rendering ∧
      (Piece.kept kSmallBuffer pieces).Sublist pieces ∧
      ∀ before p after, pieces = before ++ p :: after →
        ∃ s₁ s₂, (fresh data).putAll before = .ok s₁ ∧ s₁.put p = .ok s₂ ∧
          1 ≤ s₁.avail ∧ s₁.contents.IsPrefix s₂.contents ∧ s₂.contents.IsPrefix s.contents ∧
          (p.Fits s₁.avail → s₂.contents = s₁.contents ++ p.rendering) ∧
          (¬ p.Fits s₁.avail → s₂ = s₁) := by
  have hfresh := valid_fresh hsize
  have hempty : (fresh data).contents = [] := rfl
  have havail : (fresh data).avail = kSmallBuffer := by
    rw [hfresh.avail_eq, hempty]
    rfl
  obtain ⟨s, hs, hvalid, hcontents⟩ := hfresh.putAll pieces
  rw [hempty, havail, List.nil_append] at hcontents
  refine ⟨s, hs, hvalid.avail_pos, hcontents, Piece.kept_sublist _ _, ?_⟩
  intro before p after hsplit
  obtain ⟨s₁, hs₁, hvalid₁, -⟩ := hfresh.putAll before
  obtain ⟨s₂, hs₂, hvalid₂, hcontents₂⟩ := hvalid₁.put p
  obtain ⟨s', hs', -, hrest⟩ := hvalid₂.putAll after
  -- the run goes through `s₁` and `s₂`
  have heq : s' = s := by
    rw [hsplit, putAll_append hs₁, LogStream.putAll, hs₂] at hs
    exact Except.ok.inj (hs'.symm.trans hs)
  rw [heq] at hrest
  refine ⟨s₁, s₂, hs₁, hs₂, hvalid₁.avail_pos, ⟨_, hcontents₂.symm⟩, ⟨_, hrest.symm⟩, ?_, ?_⟩
  · intro hfits
    rw [hcontents₂, if_pos hfits]
  · intro hfits
    exact Except.ok.inj (hs₂.symm.trans (put_of_not_fits hvalid₁ hfits))

theorem putAll_exact_zeros :
    ∃ s, (fresh (List.replicate kSmallBuffer 0)).putAll [.bool true, .cstring none] = .ok s ∧
      1 ≤ s.avail ∧ s.contents = bytes "1(null)" := by
  obtain ⟨s, hs, hfree, hcontents, -⟩ := putAll_exact (List.replicate kSmallBuffer 0)
    List.length_replicate [.bool true, .cstring none]
  exact ⟨s, hs, hfree, hcontents.trans (by decide)⟩

end LogStream

end Dxian
