import Dxian.Base.Fault
import Dxian.Lib.BigEndian
import Dxian.Lib.ByteFile

/-!
# The file of a time zone

The functions of `class File`. A `std::logic_error` is caught by `readTimeZoneFile`, also
where it is one of the classes derived from it; a fault is not. A file says itself how much
memory it takes to read it, so the memory that there is decides about some faults.
-/

namespace Dxian

namespace TimeZone

/-- What leaves a function that does not return. -/
inductive Thrown
  | logicError (what : String)
  | lengthError
  | outOfRange
  | fault (fault : Fault)
deriving DecidableEq

/-- `catch (std::logic_error& e)` applies. -/
def Thrown.Caught : Thrown → Prop
  | fault _ => False
  | _ => True

/-- The memory of the program: the size of an array that fits on the stack, and of the elements
of a vector or a string that can be allocated. There is room for what does not depend on the
file, such as the buffer of `File::readToEnd`. -/
structure Memory where
  stack : ℕ
  heap : ℕ
  fixed : 4096 ≤ stack ∧ 4096 ≤ heap

/-- A stack of eight megabytes and a heap of a gigabyte. -/
def usualMemory : Memory := ⟨8388608, 1073741824, by decide⟩

/-- The allocation of the elements of a vector or a string. -/
def Memory.allocate (mem : Memory) (size : ℕ) : Except Thrown Unit :=
  if size ≤ mem.heap then .ok () else .error (.fault .badAlloc)

theorem Memory.allocate_of_le {mem : Memory} {size : ℕ} (h : size ≤ mem.heap) :
    mem.allocate size = .ok () := if_pos h

theorem Memory.allocate_of_lt {mem : Memory} {size : ℕ} (h : mem.heap < size) :
    mem.allocate size = .error (.fault .badAlloc) := if_neg (by omega)

namespace File

open Reader

/-- `File::readBytes`, whose buffer is an array of `n` elements. -/
def readBytes (mem : Memory) (n : ℤ) : Reader Thrown (List UInt8) :=
  if n < 0 then throw (.fault .negativeLength)
  else if mem.stack < n then throw (.fault .stackOverflow)
  else do
    let buf ← readExact (.logicError "no enough data") n.toNat
    mem.allocate buf.length
    return buf

/-- The loop of `File::readToEnd`; every round but the last reads something. -/
def readToEndLoop (mem : Memory) :
    ℕ → List UInt8 → ByteFile → Except Thrown (List UInt8 × ByteFile)
  | 0, result, f => .ok (result, f)
  | fuel + 1, result, f =>
    let (buf, f) := f.fread 4096
    if 0 < buf.length then do
      mem.allocate (result ++ buf).length
      readToEndLoop mem fuel (result ++ buf) f
    else .ok (result, f)

/-- `File::readToEnd`. -/
def readToEnd (mem : Memory) : Reader Thrown (List UInt8) := fun f =>
  readToEndLoop mem (f.rest.length + 1) [] f

/-- `File::readInt64`. -/
def readInt64 : Reader Thrown ℤ := do
  let x ← readExact (.logicError "bad int64_t data") 8
  return BigEndian.intOf x

/-- `File::readInt32`. -/
def readInt32 : Reader Thrown ℤ := do
  let x ← readExact (.logicError "bad int32_t data") 4
  return BigEndian.intOf x

/-- `File::readUInt8`. -/
def readUInt8 : Reader Thrown ℕ := do
  let x ← readExact (.logicError "bad uint8_t data") 1
  return BigEndian.natOf x

/-- `File::skip`; no caller looks at its result. -/
def skip (bytes : ℤ) : Reader Thrown Unit := fun f => .ok ((), f.seekCur bytes)

theorem reads_readInt64 : Reads readInt64 8 BigEndian.intOf Thrown.Caught :=
  (reads_readExact trivial 8).map BigEndian.intOf

theorem reads_readInt32 : Reads readInt32 4 BigEndian.intOf Thrown.Caught :=
  (reads_readExact trivial 4).map BigEndian.intOf

theorem reads_readUInt8 : Reads readUInt8 1 BigEndian.natOf Thrown.Caught :=
  (reads_readExact trivial 1).map BigEndian.natOf

section Memory

theorem reads_buffer (n : ℕ) :
    Reads (readExact (.logicError "no enough data") n) n id Thrown.Caught :=
  reads_readExact trivial n

variable {mem : Memory}

theorem readBytes_of_neg {n : ℤ} (h : n < 0) (f : ByteFile) :
    readBytes mem n f = .error (.fault .negativeLength) := by
  rw [readBytes, if_pos h]
  rfl

theorem readBytes_of_stack {n : ℕ} (h : mem.stack < n) (f : ByteFile) :
    readBytes mem n f = .error (.fault .stackOverflow) := by
  rw [readBytes, if_neg (by omega), if_pos (by omega)]
  rfl

variable {n : ℕ} (hstack : n ≤ mem.stack)
include hstack

theorem readBytes_eq : readBytes mem n =
    readExact (.logicError "no enough data") n >>= fun buf =>
      liftM (mem.allocate buf.length) >>= fun _ => pure buf := by
  rw [readBytes, if_neg (by omega), if_neg (by omega), Int.toNat_natCast]

/-- What is not there is refused before anything is allocated. -/
theorem readBytes_of_short {f : ByteFile} (h : f.rest.length < n) :
    ∃ e, Thrown.Caught e ∧ readBytes mem n f = .error e := by
  obtain ⟨e, he, herror⟩ := (reads_buffer n).error f h
  rw [readBytes_eq hstack]
  exact ⟨e, he, bind_error herror⟩

theorem readBytes_of_heap {f : ByteFile} (h : n ≤ f.rest.length) (hheap : mem.heap < n) :
    readBytes mem n f = .error (.fault .badAlloc) := by
  have hread := (reads_buffer n).ok f h
  have hlength : (f.rest.take n).length = n := by
    rw [List.length_take]
    omega
  rw [readBytes_eq hstack, bind_ok hread]
  show (liftM (mem.allocate (f.rest.take n).length) >>= fun _ => pure (f.rest.take n) :
    Reader Thrown _) _ = _
  rw [hlength, Memory.allocate_of_lt hheap]
  rfl

theorem reads_readBytes (hheap : n ≤ mem.heap) :
    Reads (readBytes mem n) n id Thrown.Caught where
  ok f h := by
    have hread := (reads_buffer n).ok f h
    have hlength : (f.rest.take n).length = n := by
      rw [List.length_take]
      omega
    rw [readBytes_eq hstack, bind_ok hread]
    show (liftM (mem.allocate (f.rest.take n).length) >>= fun _ => pure (f.rest.take n) :
      Reader Thrown _) _ = _
    rw [hlength, Memory.allocate_of_le hheap]
    rfl
  error _ h := readBytes_of_short hstack h

end Memory

/-- Strings of a few bytes. -/
theorem reads_readBytes_of_le (mem : Memory) {n : ℕ} (h : n ≤ 4096) :
    Reads (readBytes mem n) n id Thrown.Caught :=
  reads_readBytes (Nat.le_trans h mem.fixed.1) (Nat.le_trans h mem.fixed.2)

theorem readToEndLoop_eq (mem : Memory) {fuel : ℕ} {f : ByteFile} (hfuel : f.rest.length < fuel)
    {result : List UInt8} (hresult : result.length ≤ mem.heap) :
    readToEndLoop mem fuel result f =
      if (result ++ f.rest).length ≤ mem.heap then .ok (result ++ f.rest, f.advance f.rest.length)
      else .error (.fault .badAlloc) := by
  induction fuel generalizing f result with
  | zero => omega
  | succ fuel ih =>
    show (if 0 < (f.rest.take 4096).length then
        (mem.allocate (result ++ f.rest.take 4096).length >>= fun _ =>
          readToEndLoop mem fuel (result ++ f.rest.take 4096)
            (f.advance (min 4096 f.rest.length)))
      else .ok (result, f.advance (min 4096 f.rest.length))) = _
    by_cases hrest : f.rest = []
    · rw [hrest, List.append_nil, if_pos hresult]
      simp
    · have hpos : 0 < f.rest.length := List.length_pos_iff.mpr hrest
      have hlength : (f.advance (min 4096 f.rest.length)).rest.length =
          f.rest.length - min 4096 f.rest.length := by
        rw [ByteFile.rest_advance, List.length_drop]
      have hdrop : f.rest.drop (min 4096 f.rest.length) = f.rest.drop 4096 := by
        by_cases hlong : 4096 ≤ f.rest.length
        · rw [show min 4096 f.rest.length = 4096 by omega]
        · rw [show min 4096 f.rest.length = f.rest.length by omega, List.drop_length,
            List.drop_of_length_le (by omega)]
      rw [if_pos (by rw [List.length_take]; omega)]
      by_cases hheap : (result ++ f.rest.take 4096).length ≤ mem.heap
      · rw [Memory.allocate_of_le hheap]
        show readToEndLoop mem fuel _ _ = _
        rw [ih (by omega) hheap, hlength, ByteFile.advance_advance, ByteFile.rest_advance, hdrop,
          List.append_assoc, List.take_append_drop,
          show min 4096 f.rest.length + (f.rest.length - min 4096 f.rest.length) =
            f.rest.length by omega]
      · -- a part of the result is too large already
        rw [Memory.allocate_of_lt (by omega), if_neg]
        · rfl
        · rw [List.length_append, List.length_take] at hheap
          rw [List.length_append]
          omega

theorem readToEnd_apply {mem : Memory} {f : ByteFile} (h : f.rest.length ≤ mem.heap) :
    readToEnd mem f = .ok (f.rest, f.advance f.rest.length) := by
  rw [readToEnd, readToEndLoop_eq mem (Nat.lt_succ_self _) (Nat.zero_le _), List.nil_append,
    if_pos h]

theorem readToEnd_of_heap {mem : Memory} {f : ByteFile} (h : mem.heap < f.rest.length) :
    readToEnd mem f = .error (.fault .badAlloc) := by
  rw [readToEnd, readToEndLoop_eq mem (Nat.lt_succ_self _) (Nat.zero_le _), List.nil_append,
    if_neg (by omega)]

end File

end TimeZone

end Dxian
