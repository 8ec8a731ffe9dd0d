import Dxian.Base.Fault
import Dxian.Lib.Overwrite
import Mathlib.Algebra.Ring.Int.Defs
import Mathlib.Algebra.Ring.Nat

/-!
# Fixed buffers

`class FixedBuffer`: an array with a cursor, behind which text is appended. Every write is
checked; one outside the array is a fault.

## Main results

- `append_of_lt`, `append_of_le` — a text is kept whole or dropped
-/

namespace Dxian

open Overwrite

/-- `data[p] = c`. -/
def store (data : List UInt8) (p : ℕ) (c : UInt8) : Except Fault (List UInt8) :=
  if p < data.length then .ok (data.set p c) else .error .outOfRange

/-- `memcpy(data + p, buf, buf.length)`. -/
def memcpy (data : List UInt8) (p : ℕ) (buf : List UInt8) : Except Fault (List UInt8) :=
  if p + buf.length ≤ data.length then .ok (overwrite data p buf) else .error .outOfRange

/-- `class FixedBuffer`; the array has `SIZE` elements, whatever these are at first. -/
structure FixedBuffer where
  data : List UInt8
  cur : ℕ := 0
deriving DecidableEq

namespace FixedBuffer

/-- `FixedBuffer::avail`. -/
def avail (b : FixedBuffer) : ℤ := b.data.length - b.cur

/-- `FixedBuffer::append`; the comparison is one of `size_t`. -/
def append (b : FixedBuffer) (buf : List UInt8) : Except Fault FixedBuffer :=
  -- FIXME: append partially
  if (buf.length : ℤ) < b.avail % 2 ^ 64 then do
    let data ← memcpy b.data b.cur buf
    return { data := data, cur := b.cur + buf.length }
  else return b

/-- `FixedBuffer::add`. -/
def add (b : FixedBuffer) (len : ℕ) : FixedBuffer := { b with cur := b.cur + len }

/-- What has been appended: `length()` bytes from `data()` on. -/
def contents (b : FixedBuffer) : List UInt8 := b.data.take b.cur

/-- A buffer of `SIZE` bytes with at least one of them free. -/
structure Valid (b : FixedBuffer) (SIZE : ℕ) : Prop where
  size : b.data.length = SIZE
  free : b.cur < SIZE

/-- A text is written at the cursor, and something that does not count behind it. -/
def written (b : FixedBuffer) (text garbage : List UInt8) : FixedBuffer where
  data := overwrite b.data b.cur (text ++ garbage)
  cur := b.cur + text.length

variable {b : FixedBuffer} {SIZE : ℕ} {buf text garbage : List UInt8}

theorem Valid.avail_pos (h : b.Valid SIZE) : 1 ≤ b.avail := by
  have hsize := h.size
  have hfree := h.free
  rw [avail]
  omega

theorem Valid.avail_eq (h : b.Valid SIZE) : b.avail = SIZE - b.contents.length := by
  have hsize := h.size
  have hfree := h.free
  rw [avail, contents, length_take (by omega), hsize]

theorem Valid.written (h : b.Valid SIZE) (hfits : b.cur + (text ++ garbage).length ≤ SIZE)
    (hfree : b.cur + text.length < SIZE) : (b.written text garbage).Valid SIZE where
  size := by
    have hsize := h.size
    rw [FixedBuffer.written, length_overwrite (by omega), hsize]
  free := hfree

/-- What has been appended before is kept. -/
theorem Valid.contents_written (h : b.Valid SIZE) :
    (b.written text garbage).contents = b.contents ++ text := by
  have hsize := h.size
  have hfree := h.free
  exact take_overwrite_append (by omega)

/-- **A text that fits** is kept whole. -/
theorem append_of_lt (h : b.Valid SIZE) (hsize : SIZE < 2 ^ 64) (hlt : (buf.length : ℤ) < b.avail) :
    b.append buf = .ok (b.written buf []) := by
  have hlength := h.size
  have hfree := h.free
  rw [avail] at hlt
  have hfits : b.cur + buf.length ≤ b.data.length := by omega
  rw [append, if_pos (by rw [avail]; omega), memcpy, if_pos hfits, written, List.append_nil]
  rfl

/-- **A text that does not fit** is dropped. -/
theorem append_of_le (h : b.Valid SIZE) (hle : b.avail ≤ buf.length) :
    b.append buf = .ok b := by
  have hlength := h.size
  have hfree := h.free
  rw [avail] at hle
  rw [append, if_neg (by rw [avail]; omega)]
  rfl

end FixedBuffer

theorem store_eq {data : List UInt8} {p : ℕ} (h : p < data.length) (c : UInt8) :
    store data p c = .ok (overwrite data p [c]) := by
  rw [store, if_pos h, set_eq_overwrite h]

end Dxian
