import Mathlib.Data.Int.Notation
import Mathlib.Data.List.Basic
import Mathlib.Data.Nat.Notation

/-!
# Files of bytes

A `ByteFile` is a file that is open for reading, with its position. A `Reader` moves the
position or fails; `Reads` says of one that it decodes a fixed number of bytes, so that
what a sequence of them does can be computed from the bytes that are left.

## Main results

- `Reads.bind`, `Reads.map`, `Reads.repeatM` — sequences and loops of readers
- `Reads.bind_fails` — a sequence with a reader that fails
- `records_flatMap` — the records of a list of encoded values
-/

/-- A file and its position; the position may be past the end. -/
structure ByteFile where
  bytes : List UInt8
  pos : ℕ

namespace ByteFile

/-- The bytes from the position on. -/
def rest (f : ByteFile) : List UInt8 := f.bytes.drop f.pos

def advance (f : ByteFile) (n : ℕ) : ByteFile := { f with pos := f.pos + n }

/-- `fread` of `n` bytes. -/
def fread (f : ByteFile) (n : ℕ) : List UInt8 × ByteFile :=
  (f.rest.take n, f.advance (min n f.rest.length))

/-- `fseek` from the position; it refuses to go before the start. -/
def seekCur (f : ByteFile) (offset : ℤ) : ByteFile :=
  if 0 ≤ (f.pos : ℤ) + offset then { f with pos := ((f.pos : ℤ) + offset).toNat } else f

@[simp] theorem rest_advance (f : ByteFile) (n : ℕ) : (f.advance n).rest = f.rest.drop n := by
  rw [rest, rest, List.drop_drop]
  rfl

@[simp] theorem advance_advance (f : ByteFile) (m n : ℕ) :
    (f.advance m).advance n = f.advance (m + n) := by
  simp only [advance, Nat.add_assoc]

theorem seekCur_natCast (f : ByteFile) (n : ℕ) : f.seekCur n = f.advance n := by
  rw [seekCur, if_pos (by omega), advance]
  congr 1

end ByteFile

/-- A function that reads from a file, or fails. -/
abbrev Reader (ε α : Type) := StateT ByteFile (Except ε) α

namespace Reader

variable {ε α β : Type} {x : Reader ε α} {g : α → Reader ε β} {f f' : ByteFile} {e : ε} {a : α}

theorem bind_ok (h : x f = .ok (a, f')) : (x >>= g) f = g a f' := by
  show (do let (a, s) ← x f; g a s) = _
  rw [h]
  rfl

theorem bind_error (h : x f = .error e) : (x >>= g) f = .error e := by
  show (do let (a, s) ← x f; g a s) = _
  rw [h]
  rfl

/-- `n` bytes, all of which must be there. -/
def readExact (e : ε) (n : ℕ) : Reader ε (List UInt8) := fun f =>
  let (buf, f) := f.fread n
  if buf.length = n then .ok (buf, f) else .error e

/-- The results of `n` reads. -/
def repeatM (x : Reader ε α) : ℕ → Reader ε (List α)
  | 0 => pure []
  | n + 1 => do
    let a ← x
    let as ← repeatM x n
    return a :: as

/-- The reader decodes the next `k` bytes with `d`; if they are not there, it fails with an
error of `E`. -/
structure Reads (x : Reader ε α) (k : ℕ) (d : List UInt8 → α) (E : ε → Prop) : Prop where
  ok : ∀ f, k ≤ f.rest.length → x f = .ok (d (f.rest.take k), f.advance k)
  error : ∀ f, f.rest.length < k → ∃ e, E e ∧ x f = .error e

theorem reads_readExact {E : ε → Prop} (he : E e) (n : ℕ) : Reads (readExact e n) n id E where
  ok f hf := by
    have hlen : (f.rest.take n).length = n := by
      rw [List.length_take]
      omega
    show (if (f.rest.take n).length = n then _ else _) = _
    rw [if_pos hlen, show min n f.rest.length = n by omega]
    rfl
  error f hf := by
    have hlen : (f.rest.take n).length ≠ n := by
      rw [List.length_take]
      omega
    exact ⟨e, he, if_neg hlen⟩

variable {E : ε → Prop} {k m : ℕ} {d : List UInt8 → α}

theorem Reads.map (h : Reads x k d E) (φ : α → β) :
    Reads (x >>= fun a => pure (φ a)) k (fun l => φ (d l)) E where
  ok f hf := by
    rw [bind_ok (h.ok f hf)]
    rfl
  error f hf := by
    obtain ⟨e, he, hx⟩ := h.error f hf
    exact ⟨e, he, bind_error hx⟩

theorem Reads.congr {d' : List UInt8 → α} (h : Reads x k d E)
    (hd : ∀ l : List UInt8, l.length = k → d l = d' l) : Reads x k d' E where
  ok f hf := by
    rw [h.ok f hf, hd _ (by rw [List.length_take]; omega)]
  error := h.error

/-- One reader after another. -/
theorem Reads.bind (h : Reads x k d E) {d' : α → List UInt8 → β}
    (hg : ∀ a, Reads (g a) m (d' a) E) :
    Reads (x >>= g) (k + m) (fun l => d' (d (l.take k)) (l.drop k)) E where
  ok f hf := by
    have hrest : m ≤ (f.advance k).rest.length := by
      rw [ByteFile.rest_advance, List.length_drop]
      omega
    rw [bind_ok (h.ok f (by omega)), (hg _).ok _ hrest, ByteFile.rest_advance,
      ByteFile.advance_advance, List.take_take, List.drop_take]
    congr 3
    · rw [show min k (k + m) = k by omega]
    · rw [show k + m - k = m by omega]
  error f hf := by
    by_cases hk : k ≤ f.rest.length
    · have hrest : (f.advance k).rest.length < m := by
        rw [ByteFile.rest_advance, List.length_drop]
        omega
      obtain ⟨e, he, hy⟩ := (hg (d (f.rest.take k))).error _ hrest
      exact ⟨e, he, (bind_ok (h.ok f hk)).trans hy⟩
    · obtain ⟨e, he, hx⟩ := h.error f (by omega)
      exact ⟨e, he, bind_error hx⟩

/-- The reader fails with an error of `E`, wherever the file stands. -/
def Fails (x : Reader ε α) (E : ε → Prop) : Prop := ∀ f, ∃ e, E e ∧ x f = .error e

theorem Fails.bind (h : Fails x E) : Fails (x >>= g) E := fun f => by
  obtain ⟨e, he, hx⟩ := h f
  exact ⟨e, he, bind_error hx⟩

/-- `n` records of `k` bytes. -/
def records (k : ℕ) (d : List UInt8 → α) : ℕ → List UInt8 → List α
  | 0, _ => []
  | n + 1, l => d (l.take k) :: records k d n (l.drop k)

@[simp] theorem length_records (k : ℕ) (d : List UInt8 → α) (n : ℕ) (l : List UInt8) :
    (records k d n l).length = n := by
  induction n generalizing l with
  | zero => rfl
  | succ n ih => rw [records, List.length_cons, ih]

/-- A loop of readers. -/
theorem Reads.repeatM (h : Reads x k d E) (n : ℕ) :
    Reads (repeatM x n) (n * k) (records k d n) E := by
  induction n with
  | zero =>
    exact ⟨fun f _ => by rw [Nat.zero_mul]; rfl, fun f hf => by omega⟩
  | succ n ih =>
    have hstep := h.bind (g := fun a => Reader.repeatM x n >>= fun as => pure (a :: as))
      fun a => ih.map (a :: ·)
    rw [show k + n * k = (n + 1) * k by rw [Nat.succ_mul, Nat.add_comm]] at hstep
    exact hstep

/-- The records of a list of encoded values. -/
theorem records_flatMap {γ : Type} {enc : γ → List UInt8} {φ : γ → α} {xs : List γ}
    (henc : ∀ x ∈ xs, (enc x).length = k ∧ d (enc x) = φ x) :
    records k d xs.length (xs.flatMap enc) = xs.map φ := by
  induction xs with
  | nil => rfl
  | cons x xs ih =>
    obtain ⟨hlen, hdec⟩ := henc x List.mem_cons_self
    rw [List.flatMap_cons, List.length_cons, records, List.map_cons, ← hlen, List.take_left,
      List.drop_left, hlen, hdec, ih fun y hy => henc y (List.mem_cons_of_mem _ hy)]

end Reader
