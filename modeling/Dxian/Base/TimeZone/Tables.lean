import Dxian.Base.TimeZone.Reader

/-!
# The tables of a data block

The counters and the arrays that `readDataBlock` reads have sizes that the counters say, so what
is read can be computed from the bytes, unless a vector is too large for the memory. The
transitions are added one by one, and each may be the last one.

## Main results

- `reads_readTables` — the arrays, if there is room for them
- `Data.addTransitions_ok`, `Data.addTransitions_error`, `Data.addTransitions_fault` — the
  transitions
-/

namespace Dxian

namespace TimeZone

open Reader

/-! ## Counters and tables -/

/-- The counters in 24 bytes. -/
def Counters.ofBytes (l : List UInt8) : Counters where
  isutccnt := BigEndian.intOf (l.take 4)
  isstdcnt := BigEndian.intOf ((l.drop 4).take 4)
  leapcnt := BigEndian.intOf ((l.drop 8).take 4)
  timecnt := BigEndian.intOf ((l.drop 12).take 4)
  typecnt := BigEndian.intOf ((l.drop 16).take 4)
  charcnt := BigEndian.intOf ((l.drop 20).take 4)

theorem reads_readCounters : Reads readCounters 24 Counters.ofBytes Thrown.Caught := by
  have h := File.reads_readInt32
  refine (h.bind fun isutccnt => h.bind fun isstdcnt => h.bind fun leapcnt => h.bind fun timecnt =>
    h.bind fun typecnt => h.map fun charcnt =>
      (⟨isutccnt, isstdcnt, leapcnt, timecnt, typecnt, charcnt⟩ : Counters)).congr fun l hl => ?_
  simp only [Counters.ofBytes, List.drop_drop]
  rw [List.take_of_length_le (l := l.drop 20) (by rw [List.length_drop]; omega)]

/-- The record in six bytes. -/
def LocalTime.ofBytes (l : List UInt8) : LocalTime where
  utcOffset := BigEndian.intOf (l.take 4)
  isDst := BigEndian.natOf ((l.drop 4).take 1) != 0
  desigIdx := BigEndian.natOf ((l.drop 5).take 1)

theorem reads_readLocalTime : Reads readLocalTime 6 LocalTime.ofBytes Thrown.Caught := by
  refine (File.reads_readInt32.bind fun gmtoff => File.reads_readUInt8.bind fun isdst =>
    File.reads_readUInt8.map fun abbrind =>
      (⟨gmtoff, isdst != 0, abbrind⟩ : LocalTime)).congr fun l hl => ?_
  simp only [LocalTime.ofBytes, List.drop_drop]
  rw [List.take_of_length_le (l := l.drop 5) (by rw [List.length_drop]; omega)]

theorem reads_readTime (v1 : Bool) :
    Reads (readTime v1) (timeSize v1) BigEndian.intOf Thrown.Caught := by
  cases v1
  · exact File.reads_readInt64
  · exact File.reads_readInt32

section Reserve

variable {mem : Memory} {size n : ℕ}

theorem reserve_of_le (h : n * size ≤ mem.heap) : reserve mem size n = pure () := by
  rw [reserve, if_pos (Int.natCast_nonneg n), Int.toNat_natCast, Memory.allocate_of_le h]
  rfl

theorem reserve_of_lt (h : mem.heap < n * size) (f : ByteFile) :
    reserve mem size n f = .error (.fault .badAlloc) := by
  rw [reserve, if_pos (Int.natCast_nonneg n), Int.toNat_natCast, Memory.allocate_of_lt h]
  rfl

end Reserve

def tablesSize (v1 : Bool) (timecnt typecnt : ℕ) : ℕ :=
  timecnt * timeSize v1 + (timecnt * 1 + typecnt * 6)

/-- The tables in `tablesSize` bytes. -/
def Tables.ofBytes (v1 : Bool) (timecnt typecnt : ℕ) (l : List UInt8) : Tables where
  trans := records (timeSize v1) BigEndian.intOf timecnt (l.take (timecnt * timeSize v1))
  localtimes := records 1 BigEndian.natOf timecnt
    ((l.drop (timecnt * timeSize v1)).take (timecnt * 1))
  types := records 6 LocalTime.ofBytes typecnt
    ((l.drop (timecnt * timeSize v1)).drop (timecnt * 1))

section ReadTables

variable {mem : Memory} (v1 : Bool) {timecnt : ℕ} (htimes : timecnt * 8 ≤ mem.heap)
include htimes

theorem reads_readTables {typecnt : ℕ} (htypes : typecnt * 12 ≤ mem.heap) :
    Reads (readTables mem v1 timecnt typecnt) (tablesSize v1 timecnt typecnt)
      (Tables.ofBytes v1 timecnt typecnt) Thrown.Caught := by
  simp only [readTables, reserve_of_le htimes, reserve_of_le (show timecnt * 4 ≤ mem.heap by omega),
    reserve_of_le htypes, pure_bind, Int.toNat_natCast]
  exact ((reads_readTime v1).repeatM timecnt).bind fun trans =>
    (File.reads_readUInt8.repeatM timecnt).bind fun localtimes =>
      (reads_readLocalTime.repeatM typecnt).map fun types =>
        (⟨trans, localtimes, types⟩ : Tables)

variable {typecnt : ℕ} (htypes : mem.heap < typecnt * 12) {f : ByteFile}
include htypes

/-- The vector of the types is allocated behind the arrays. -/
theorem readTables_of_heap (hf : timecnt * timeSize v1 + timecnt * 1 ≤ f.rest.length) :
    readTables mem v1 timecnt typecnt f = .error (.fault .badAlloc) := by
  simp only [readTables, reserve_of_le htimes, reserve_of_le (show timecnt * 4 ≤ mem.heap by omega),
    pure_bind, Int.toNat_natCast]
  have htrans := ((reads_readTime v1).repeatM timecnt).ok f (by omega)
  have hindices := (File.reads_readUInt8.repeatM timecnt).ok (f.advance (timecnt * timeSize v1)) (by
    rw [ByteFile.rest_advance, List.length_drop]
    omega)
  rw [bind_ok htrans, bind_ok hindices]
  exact bind_error (reserve_of_lt htypes _)

end ReadTables

/-! ## The data -/

namespace Data

variable {data : Data}

theorem addLocalTimes_eq (data : Data) (types : List LocalTime) :
    data.addLocalTimes types = { data with localtimes := data.localtimes ++ types } := by
  induction types generalizing data with
  | nil => rw [List.append_nil]; rfl
  | cons type types ih =>
    show (data.addLocalTime _ _ _).addLocalTimes types = _
    rw [ih, addLocalTime, List.append_assoc]
    rfl

/-- The transition to a local time type. -/
def transitionTo (data : Data) (p : ℤ × ℕ) : Transition where
  utctime := p.1
  localtime := p.1 + data.utcOffset p.2
  localtimeIdx := p.2

/-- The sum of a time and an offset is an `int64_t`. -/
@[reducible] def LocalFits (data : Data) (p : ℤ × ℕ) : Prop :=
  CInt.InRange64 (p.1 + data.utcOffset p.2)

section AddTransition

variable {mem : Memory} {p : ℤ × ℕ}

variable (h : p.2 < data.localtimes.length)
include h

theorem addTransition_eq : data.addTransition mem p.1 p.2 =
    (CInt.get64 (.fault .overflow) (p.1 + data.utcOffset p.2) >>= fun localtime =>
      mem.allocate ((data.transitions.length + 1) * 24) >>= fun _ =>
        .ok { data with transitions := data.transitions ++ [⟨p.1, localtime, p.2⟩] }) := by
  have htype := List.getElem?_eq_getElem h
  simp only [addTransition, utcOffset, htype, Option.map_some, Option.getD_some,
    List.length_append, List.length_singleton]
  rfl

theorem addTransition_ok (hfits : data.LocalFits p)
    (hheap : (data.transitions.length + 1) * 24 ≤ mem.heap) :
    data.addTransition mem p.1 p.2 =
      .ok { data with transitions := data.transitions ++ [data.transitionTo p] } := by
  rw [addTransition_eq h, CInt.get64_eq _ hfits, Memory.allocate_of_le hheap]
  rfl

/-- A transition that stops the program. -/
theorem addTransition_fault
    (hbad : ¬ data.LocalFits p ∨ mem.heap < (data.transitions.length + 1) * 24) :
    ∃ fault, data.addTransition mem p.1 p.2 = .error (.fault fault) := by
  rw [addTransition_eq h]
  by_cases hfits : data.LocalFits p
  · rw [CInt.get64_eq _ hfits, Memory.allocate_of_lt (hbad.resolve_left (not_not_intro hfits))]
    exact ⟨_, rfl⟩
  · rw [CInt.get64_overflow _ hfits]
    exact ⟨_, rfl⟩

end AddTransition

/-- The transition `k` stops the program: the indices up to it are those of types, but a sum or
the vector is too large. -/
structure FaultsAt (mem : Memory) (data : Data) (pairs : List (ℤ × ℕ)) (k : ℕ) (p : ℤ × ℕ) :
    Prop where
  get : pairs[k]? = some p
  indices : ∀ q ∈ pairs.take (k + 1), q.2 < data.localtimes.length
  bad : ¬ data.LocalFits p ∨ mem.heap < (data.transitions.length + (k + 1)) * 24

section AddTransitions

variable {mem : Memory} {pairs : List (ℤ × ℕ)}

theorem addTransitions_cons (mem : Memory) (data : Data) (p : ℤ × ℕ) (pairs : List (ℤ × ℕ)) :
    data.addTransitions mem (p :: pairs) =
      (data.addTransition mem p.1 p.2 >>= fun data => data.addTransitions mem pairs) := rfl

/-- The rest of the transitions. -/
theorem faultsAt_succ {p q : ℤ × ℕ} {k : ℕ} {trans : Transition}
    (hp : p.2 < data.localtimes.length) :
    FaultsAt mem { data with transitions := data.transitions ++ [trans] } pairs k q ↔
      FaultsAt mem data (p :: pairs) (k + 1) q := by
  have hlength : (data.transitions ++ [trans]).length + (k + 1) =
      data.transitions.length + (k + 1 + 1) := by
    rw [List.length_append, List.length_singleton]
    omega
  constructor
  · intro h
    refine ⟨h.get, fun r hr => ?_, hlength ▸ h.bad⟩
    cases hr with
    | head => exact hp
    | tail _ hr => exact h.indices r hr
  · intro h
    exact ⟨h.get, fun r hr => h.indices r (List.mem_cons_of_mem _ hr), hlength.symm ▸ h.bad⟩

theorem addTransitions_fault {k : ℕ} {p : ℤ × ℕ} (h : FaultsAt mem data pairs k p) :
    ∃ fault, data.addTransitions mem pairs = .error (.fault fault) := by
  induction pairs generalizing data k with
  | nil => cases h.get
  | cons q pairs ih =>
    have hq := h.indices q (by rw [List.take_succ_cons]; exact List.mem_cons_self)
    rw [addTransitions_cons]
    by_cases hbad : ¬ data.LocalFits q ∨ mem.heap < (data.transitions.length + 1) * 24
    · obtain ⟨fault, hfault⟩ := addTransition_fault hq hbad
      exact ⟨fault, by rw [hfault]; rfl⟩
    · obtain ⟨hfits, hheap⟩ := not_or.mp hbad
      rw [addTransition_ok hq (not_not.mp hfits) (by omega)]
      cases k with
      | zero =>
        cases h.get
        exact absurd h.bad hbad
      | succ k => exact ih ((faultsAt_succ hq).mpr h)

/-- The first one of transitions that do not stop the program. -/
theorem addTransition_of_not_faultsAt {p : ℤ × ℕ}
    (h : ¬ ∃ k q, FaultsAt mem data (p :: pairs) k q) (hp : p.2 < data.localtimes.length) :
    data.addTransition mem p.1 p.2 =
        .ok { data with transitions := data.transitions ++ [data.transitionTo p] } ∧
      ¬ ∃ k q, FaultsAt mem
        { data with transitions := data.transitions ++ [data.transitionTo p] } pairs k q := by
  have hfirst : ¬ (¬ data.LocalFits p ∨ mem.heap < (data.transitions.length + 1) * 24) :=
    fun hbad => h ⟨0, p, rfl, by simpa using hp, hbad⟩
  obtain ⟨hfits, hheap⟩ := not_or.mp hfirst
  refine ⟨addTransition_ok hp (not_not.mp hfits) (by omega), ?_⟩
  rintro ⟨k, q, hq⟩
  exact h ⟨k + 1, q, (faultsAt_succ hp).mp hq⟩

variable (h : ¬ ∃ k p, FaultsAt mem data pairs k p)
include h

theorem addTransitions_ok (hindices : ∀ p ∈ pairs, p.2 < data.localtimes.length) :
    data.addTransitions mem pairs =
      .ok { data with transitions := data.transitions ++ pairs.map data.transitionTo } := by
  induction pairs generalizing data with
  | nil => rw [List.map_nil, List.append_nil]; rfl
  | cons p pairs ih =>
    have hpairs := fun q hq => hindices q (List.mem_cons_of_mem _ hq)
    obtain ⟨hfirst, hrest⟩ := addTransition_of_not_faultsAt h (hindices p List.mem_cons_self)
    rw [addTransitions_cons, hfirst]
    show Data.addTransitions mem _ pairs = _
    rw [ih hrest (by exact hpairs), List.append_assoc]
    rfl

end AddTransitions

end Data

end TimeZone

end Dxian
