import Dxian.Base.TimeZone.Tables

/-!
# The bytes of a data block

What `readDataBlock` does is determined by the bytes from its position on, and by the memory.
A block is `Complete` if the loops of the function get through it; what is left then are the
bytes of the designations, whose number may be negative. A block `Faults` if something stops
the program before the function returns or throws a `std::logic_error`.

## Main results

- `DataBlock.catch_of_faults` — a block that faults
- `DataBlock.catch_of_not_complete`, `DataBlock.catch_of_short` — the other blocks that are
  refused
- `DataBlock.catch_of_le` — the data of a block that is accepted
-/

namespace Dxian

namespace TimeZone

open Reader

/-! ## The block -/

/-- The conditions under which `readDataBlock` does not return `false`. -/
structure Counters.Accepted (cnt : Counters) : Prop where
  leapcnt : cnt.leapcnt = 0
  isutccnt : cnt.isutccnt = 0 ∨ cnt.isutccnt = cnt.typecnt
  isstdcnt : cnt.isstdcnt = 0 ∨ cnt.isstdcnt = cnt.typecnt

/-- The bytes from a data block on. -/
structure DataBlock where
  v1 : Bool
  bytes : List UInt8

namespace DataBlock

variable (b : DataBlock)

def counters : Counters := .ofBytes (b.bytes.take 24)

/-- The size of the tables, and of those that are read before the types. -/
def size : ℕ := tablesSize b.v1 b.counters.timecnt.toNat b.counters.typecnt.toNat

def arraysSize : ℕ :=
  b.counters.timecnt.toNat * timeSize b.v1 + b.counters.timecnt.toNat * 1

def tables : Tables :=
  .ofBytes b.v1 b.counters.timecnt.toNat b.counters.typecnt.toNat
    ((b.bytes.drop 24).take b.size)

/-- The times and the indices of the transitions. -/
def pairs : List (ℤ × ℕ) := b.tables.trans.zip b.tables.localtimes

/-- The bytes from the designations on. -/
def rest : List UInt8 := b.bytes.drop (24 + b.size)

/-- The bytes behind the indicators. -/
def footer : List UInt8 :=
  b.rest.drop (b.counters.charcnt.toNat + b.counters.isstdcnt.toNat + b.counters.isutccnt.toNat)

/-- The data without the designations. -/
def tableData : Data where
  localtimes := b.tables.types
  transitions := b.pairs.map ({ localtimes := b.tables.types } : Data).transitionTo

/-- The data that is read. -/
def data : Data :=
  { b.tableData with
    abbreviation := b.rest.take b.counters.charcnt.toNat
    tzstring := if b.v1 then [] else b.footer }

/-- `readDataBlock` comes to its first loop. -/
structure Begins : Prop where
  header : 24 ≤ b.bytes.length
  accepted : b.counters.Accepted
  timecnt : 0 ≤ b.counters.timecnt

/-- The tables are there. -/
structure Tabled : Prop extends b.Begins where
  typecnt : 0 ≤ b.counters.typecnt
  tables : 24 + b.size ≤ b.bytes.length

/-- The loops of `readDataBlock` come to their ends. -/
structure Complete : Prop extends b.Tabled where
  indices : ∀ i ∈ b.tables.localtimes, (i : ℤ) < b.counters.typecnt

/-- What stops the program: a vector that is too large for the heap, a transition whose local
time is not an `int64_t`, and the buffer and the string of the designations. -/
inductive Faults (mem : Memory) : Prop
  | times (begins : b.Begins) (heap : mem.heap < b.counters.timecnt.toNat * 8)
  | types (begins : b.Begins) (typecnt : 0 ≤ b.counters.typecnt)
      (arrays : 24 + b.arraysSize ≤ b.bytes.length)
      (heap : mem.heap < b.counters.typecnt.toNat * 12)
  | transition (tabled : b.Tabled) {k : ℕ} {p : ℤ × ℕ}
      (faults : Data.FaultsAt mem { localtimes := b.tables.types } b.pairs k p)
  | negative (complete : b.Complete) (charcnt : b.counters.charcnt < 0)
  | stack (complete : b.Complete) (charcnt : mem.stack < b.counters.charcnt)
  | designations (complete : b.Complete) (charcnt : b.counters.charcnt ≤ b.rest.length)
      (heap : mem.heap < b.counters.charcnt)
  | footer (complete : b.Complete) (v1 : b.v1 = false) (pos : 0 ≤ b.counters.charcnt)
      (charcnt : b.counters.charcnt ≤ b.rest.length) (heap : mem.heap < b.footer.length)

end DataBlock

/-! ## The outcome -/

section Catch

variable {α : Type} {x : Reader Thrown (Option Data)} {y : Reader Thrown α}
  {g : α → Reader Thrown (Option Data)} {f f' : ByteFile} {e : Thrown} {a : α}

theorem catch_fault {fault : Fault} (h : x f = .error (.fault fault)) :
    catchLogicError x f = .error fault := by
  rw [catchLogicError, h]

theorem catch_bind_ok (h : y f = .ok (a, f')) :
    catchLogicError (y >>= g) f = catchLogicError (g a) f' := by
  rw [catchLogicError, catchLogicError, bind_ok h]

end Catch

namespace DataBlock

variable {b : DataBlock} {f : ByteFile} {mem : Memory}

theorem readCounters_eq (hf : f.rest = b.bytes) (hlen : 24 ≤ b.bytes.length) :
    readCounters f = .ok (b.counters, f.advance 24) := by
  have hcounters := reads_readCounters.ok f (by rw [hf]; exact hlen)
  rw [hf] at hcounters
  exact hcounters

/-- The rest of `readDataBlock`, behind the counters. -/
theorem catch_of_accepted (hf : f.rest = b.bytes) (hlen : 24 ≤ b.bytes.length)
    (h : b.counters.Accepted) : catchLogicError (readDataBlock mem {} b.v1) f =
      catchLogicError (readTables mem b.v1 b.counters.timecnt b.counters.typecnt >>= fun tables =>
        liftM ((({} : Data).addLocalTimes tables.types).addTransitions mem
          (tables.trans.zip tables.localtimes)) >>= fun data =>
            readTail mem data b.v1 b.counters) (f.advance 24) := by
  rw [readDataBlock, catch_bind_ok (readCounters_eq hf hlen)]
  have hisutccnt := h.isutccnt
  have hisstdcnt := h.isstdcnt
  rw [if_neg (not_not_intro h.leapcnt), if_neg (by omega), if_neg (by omega)]

theorem catch_of_not_accepted (mem : Memory) (hf : f.rest = b.bytes) (hlen : 24 ≤ b.bytes.length)
    (h : ¬ b.counters.Accepted) : catchLogicError (readDataBlock mem {} b.v1) f = .ok none := by
  rw [readDataBlock, catch_bind_ok (readCounters_eq hf hlen)]
  by_cases hleapcnt : b.counters.leapcnt ≠ 0
  · rw [if_pos hleapcnt]
    rfl
  · rw [if_neg hleapcnt]
    by_cases hisutccnt : b.counters.isutccnt ≠ 0 ∧ b.counters.isutccnt ≠ b.counters.typecnt
    · rw [if_pos hisutccnt]
      rfl
    · have hisstdcnt : b.counters.isstdcnt ≠ 0 ∧ b.counters.isstdcnt ≠ b.counters.typecnt := by
        by_contra hisstdcnt
        exact h ⟨by omega, by omega, by omega⟩
      rw [if_neg hisutccnt, if_pos hisstdcnt]
      rfl

theorem length_types (b : DataBlock) : b.tables.types.length = b.counters.typecnt.toNat :=
  length_records ..

theorem map_snd_zip (b : DataBlock) : b.pairs.map Prod.snd = b.tables.localtimes := by
  have htrans : b.tables.trans.length = b.counters.timecnt.toNat := length_records ..
  have hlocaltimes : b.tables.localtimes.length = b.counters.timecnt.toNat := length_records ..
  exact List.map_snd_zip (by omega)

/-- The vectors whose sizes are counters. -/
theorem catch_of_times (hf : f.rest = b.bytes) (h : b.Begins)
    (hheap : mem.heap < b.counters.timecnt.toNat * 8) :
    catchLogicError (readDataBlock mem {} b.v1) f = .error .badAlloc := by
  obtain ⟨n, hn⟩ := Int.eq_ofNat_of_zero_le h.timecnt
  rw [catch_of_accepted hf h.header h.accepted, readTables, hn]
  rw [hn] at hheap
  exact catch_fault (bind_error (bind_error (reserve_of_lt hheap _)))

theorem catch_of_types (hf : f.rest = b.bytes) (h : b.Begins) (htypecnt : 0 ≤ b.counters.typecnt)
    (harrays : 24 + b.arraysSize ≤ b.bytes.length)
    (htimes : b.counters.timecnt.toNat * 8 ≤ mem.heap)
    (hheap : mem.heap < b.counters.typecnt.toNat * 12) :
    catchLogicError (readDataBlock mem {} b.v1) f = .error .badAlloc := by
  have hread := readTables_of_heap b.v1 htimes hheap (f := f.advance 24) (by
    rw [ByteFile.rest_advance, List.length_drop, hf]
    show b.arraysSize ≤ _
    omega)
  rw [Int.toNat_of_nonneg h.timecnt, Int.toNat_of_nonneg htypecnt] at hread
  rw [catch_of_accepted hf h.header h.accepted]
  exact catch_fault (bind_error hread)

theorem arraysSize_le (b : DataBlock) : b.arraysSize ≤ b.size := by
  unfold arraysSize size tablesSize
  omega

/-- The tables have been read, if there is room for them. -/
theorem catch_of_tabled (mem : Memory) (hf : f.rest = b.bytes) (h : b.Tabled) :
    (b.Faults mem ∧ catchLogicError (readDataBlock mem {} b.v1) f = .error .badAlloc) ∨
      catchLogicError (readDataBlock mem {} b.v1) f =
        catchLogicError (liftM (({ localtimes := b.tables.types } : Data).addTransitions mem
          b.pairs) >>= fun data => readTail mem data b.v1 b.counters)
          (f.advance (24 + b.size)) := by
  have hsize := b.arraysSize_le
  have htables := h.tables
  by_cases htimes : b.counters.timecnt.toNat * 8 ≤ mem.heap
  · by_cases htypes : b.counters.typecnt.toNat * 12 ≤ mem.heap
    · right
      have hrest : (f.advance 24).rest = b.bytes.drop 24 := by rw [ByteFile.rest_advance, hf]
      have hread := (reads_readTables b.v1 htimes htypes).ok (f.advance 24) (by
        rw [hrest, List.length_drop]
        show b.size ≤ _
        omega)
      rw [Int.toNat_of_nonneg h.timecnt, Int.toNat_of_nonneg h.typecnt, hrest,
        ByteFile.advance_advance] at hread
      rw [catch_of_accepted hf h.header h.accepted, catch_bind_ok hread, Data.addLocalTimes_eq]
      rfl
    · exact .inl ⟨.types h.toBegins h.typecnt (by omega) (by omega),
        catch_of_types hf h.toBegins h.typecnt (by omega) htimes (by omega)⟩
  · exact .inl ⟨.times h.toBegins (by omega), catch_of_times hf h.toBegins (by omega)⟩

/-- The indices of a complete block are those of its types. -/
theorem Complete.index_lt (h : b.Complete) {p : ℤ × ℕ} (hp : p ∈ b.pairs) :
    p.2 < b.tables.types.length := by
  have hmem : p.2 ∈ b.tables.localtimes := by
    rw [← b.map_snd_zip]
    exact List.mem_map_of_mem hp
  have hlt := h.indices _ hmem
  rw [b.length_types]
  omega

/-- A transition that stops the program, if nothing has before. -/
theorem catch_of_transition (hf : f.rest = b.bytes) (h : b.Tabled) {k : ℕ} {p : ℤ × ℕ}
    (hk : Data.FaultsAt mem { localtimes := b.tables.types } b.pairs k p) :
    ∃ fault, catchLogicError (readDataBlock mem {} b.v1) f = .error fault := by
  rcases catch_of_tabled mem hf h with ⟨-, heq⟩ | heq
  · exact ⟨_, heq⟩
  · obtain ⟨fault, hfault⟩ := Data.addTransitions_fault hk
    rw [heq, hfault]
    exact ⟨fault, rfl⟩

/-- What is left of a complete block. -/
theorem catch_of_complete (mem : Memory) (hf : f.rest = b.bytes) (h : b.Complete) :
    (b.Faults mem ∧ ∃ fault, catchLogicError (readDataBlock mem {} b.v1) f = .error fault) ∨
      catchLogicError (readDataBlock mem {} b.v1) f =
        catchLogicError (readTail mem b.tableData b.v1 b.counters) (f.advance (24 + b.size)) := by
  rcases catch_of_tabled mem hf h.toTabled with ⟨hfaults, heq⟩ | heq
  · exact .inl ⟨hfaults, _, heq⟩
  · by_cases hk : ∃ k p, Data.FaultsAt mem { localtimes := b.tables.types } b.pairs k p
    · obtain ⟨k, p, hk⟩ := hk
      exact .inl ⟨.transition h.toTabled hk, catch_of_transition hf h.toTabled hk⟩
    · rw [Data.addTransitions_ok hk fun p hp => h.index_lt hp] at heq
      exact .inr heq

theorem rest_eq (hf : f.rest = b.bytes) : (f.advance (24 + b.size)).rest = b.rest := by
  rw [ByteFile.rest_advance, hf, rest]

/-- Skipping what the counters of an accepted block say. -/
theorem skip_eq (n : ℤ) (hn : 0 ≤ n) (g : ByteFile) :
    File.skip n g = .ok ((), g.advance n.toNat) := by
  obtain ⟨k, rfl⟩ := Int.eq_ofNat_of_zero_le hn
  rw [File.skip, ByteFile.seekCur_natCast, Int.toNat_natCast]

/-- Enough designations, of which there may be too many. -/
theorem catch_readTail (hf : f.rest = b.bytes) (h : b.Complete) (hpos : 0 ≤ b.counters.charcnt)
    (hle : b.counters.charcnt ≤ b.rest.length) (hstack : b.counters.charcnt ≤ mem.stack)
    (hheap : b.counters.charcnt ≤ mem.heap) :
    catchLogicError (readTail mem b.tableData b.v1 b.counters) (f.advance (24 + b.size)) =
      if b.v1 = true ∨ b.footer.length ≤ mem.heap then .ok (some b.data)
      else .error .badAlloc := by
  have htypecnt := h.typecnt
  have hisutccnt := h.accepted.isutccnt
  have hisstdcnt := h.accepted.isstdcnt
  have hstack' : b.counters.charcnt.toNat ≤ mem.stack := by omega
  have hbytes := (File.reads_readBytes hstack' (by omega)).ok (f.advance (24 + b.size)) (by
    rw [rest_eq hf]
    omega)
  rw [Int.toNat_of_nonneg hpos, rest_eq hf] at hbytes
  rw [readTail, catch_bind_ok hbytes, h.accepted.leapcnt, Int.zero_mul,
    catch_bind_ok (skip_eq 0 (Int.le_refl 0) _), catch_bind_ok (skip_eq _ (by omega) _),
    catch_bind_ok (skip_eq _ (by omega) _), data]
  cases hv1 : b.v1
  · obtain ⟨g, hg⟩ : ∃ g, g = ((((f.advance (24 + b.size)).advance
        b.counters.charcnt.toNat).advance (0 : ℤ).toNat).advance b.counters.isstdcnt.toNat).advance
          b.counters.isutccnt.toNat := ⟨_, rfl⟩
    have hfooter : g.rest = b.footer := by
      simp only [hg, ByteFile.rest_advance, List.drop_drop, hf, footer, rest, Int.toNat_zero,
        Nat.add_zero, Nat.add_assoc]
    rw [if_neg Bool.false_ne_true, ← hg]
    by_cases hfits : b.footer.length ≤ mem.heap
    · rw [if_pos (.inr hfits), catch_bind_ok (File.readToEnd_apply (hfooter ▸ hfits)), hfooter]
      rfl
    · rw [if_neg (fun h => h.elim Bool.false_ne_true hfits)]
      exact catch_fault (bind_error (File.readToEnd_of_heap (by rw [hfooter]; omega)))
  · rw [if_pos rfl, if_pos (.inl rfl)]
    rfl

section Tail

variable (hf : f.rest = b.bytes) (h : b.Complete)
include hf h

theorem catch_of_tail {e : Fault}
    (herror : catchLogicError (readTail mem b.tableData b.v1 b.counters)
      (f.advance (24 + b.size)) = .error e) :
    ∃ fault, catchLogicError (readDataBlock mem {} b.v1) f = .error fault := by
  rcases catch_of_complete mem hf h with ⟨-, hfault⟩ | heq
  · exact hfault
  · exact ⟨e, heq.trans herror⟩

/-- **A negative number of designations** ends in a fault. -/
theorem catch_of_neg (hneg : b.counters.charcnt < 0) :
    ∃ fault, catchLogicError (readDataBlock mem {} b.v1) f = .error fault :=
  catch_of_tail hf h (catch_fault (bind_error (File.readBytes_of_neg hneg _)))

/-- So does one that is too large for the stack. -/
theorem catch_of_stack (hstack : mem.stack < b.counters.charcnt) :
    ∃ fault, catchLogicError (readDataBlock mem {} b.v1) f = .error fault := by
  obtain ⟨n, hn⟩ := Int.eq_ofNat_of_zero_le (by omega : 0 ≤ b.counters.charcnt)
  refine catch_of_tail (e := .stackOverflow) hf h ?_
  rw [readTail, hn]
  exact catch_fault (bind_error (File.readBytes_of_stack (by omega) _))

theorem catch_of_heap (hle : b.counters.charcnt ≤ b.rest.length)
    (hheap : mem.heap < b.counters.charcnt) :
    ∃ fault, catchLogicError (readDataBlock mem {} b.v1) f = .error fault := by
  by_cases hstack : b.counters.charcnt ≤ mem.stack
  · obtain ⟨n, hn⟩ := Int.eq_ofNat_of_zero_le (by omega : 0 ≤ b.counters.charcnt)
    refine catch_of_tail (e := .badAlloc) hf h ?_
    rw [readTail, hn]
    refine catch_fault (bind_error (File.readBytes_of_heap (by omega) ?_ (by omega)))
    rw [rest_eq hf]
    omega
  · exact catch_of_stack hf h (by omega)

theorem catch_of_footer (hv1 : b.v1 = false) (hpos : 0 ≤ b.counters.charcnt)
    (hle : b.counters.charcnt ≤ b.rest.length) (hfooter : mem.heap < b.footer.length) :
    ∃ fault, catchLogicError (readDataBlock mem {} b.v1) f = .error fault := by
  by_cases hstack : b.counters.charcnt ≤ mem.stack
  · by_cases hheap : b.counters.charcnt ≤ mem.heap
    · refine catch_of_tail (e := .badAlloc) hf h
        ((catch_readTail hf h hpos hle hstack hheap).trans ?_)
      exact if_neg fun h => h.elim (by simp [hv1]) (by omega)
    · exact catch_of_heap hf h hle (by omega)
  · exact catch_of_stack hf h (by omega)

end Tail

/-- **A block that faults.** -/
theorem catch_of_faults (hf : f.rest = b.bytes) (h : b.Faults mem) :
    ∃ fault, catchLogicError (readDataBlock mem {} b.v1) f = .error fault := by
  cases h with
  | times hbegins hheap => exact ⟨_, catch_of_times hf hbegins hheap⟩
  | types hbegins htypecnt harrays hheap =>
    by_cases htimes : b.counters.timecnt.toNat * 8 ≤ mem.heap
    · exact ⟨_, catch_of_types hf hbegins htypecnt harrays htimes hheap⟩
    · exact ⟨_, catch_of_times hf hbegins (by omega)⟩
  | transition htabled hk => exact catch_of_transition hf htabled hk
  | negative hcomplete hneg => exact catch_of_neg hf hcomplete hneg
  | stack hcomplete hstack => exact catch_of_stack hf hcomplete hstack
  | designations hcomplete hle hheap => exact catch_of_heap hf hcomplete hle hheap
  | footer hcomplete hv1 hpos hle hheap => exact catch_of_footer hf hcomplete hv1 hpos hle hheap

section NotFaults

variable (hf : f.rest = b.bytes) (hfaults : ¬ b.Faults mem)
include hf hfaults

/-- **Enough designations** are accepted, and the data are those of the block. -/
theorem catch_of_le (h : b.Complete) (hpos : 0 ≤ b.counters.charcnt)
    (hle : b.counters.charcnt ≤ b.rest.length) :
    catchLogicError (readDataBlock mem {} b.v1) f = .ok (some b.data) := by
  have heq := (catch_of_complete mem hf h).resolve_left fun h => hfaults h.1
  have hstack : b.counters.charcnt ≤ mem.stack := by
    by_contra hstack
    exact hfaults (.stack h (by omega))
  have hheap : b.counters.charcnt ≤ mem.heap := by
    by_contra hheap
    exact hfaults (.designations h hle (by omega))
  rw [heq, catch_readTail hf h hpos hle hstack hheap, if_pos]
  by_contra hfooter
  obtain ⟨hv1, hfooter⟩ := not_or.mp hfooter
  exact hfaults (.footer h (by simpa using hv1) hpos hle (by omega))

end NotFaults

end DataBlock

end TimeZone

end Dxian
