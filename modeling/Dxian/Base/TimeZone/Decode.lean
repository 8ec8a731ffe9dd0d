import Dxian.Base.TimeZone.Format

/-!
# Decoding the TZif format

What `readTimeZoneFile` reads from the files of the format.

## Main results

- `Contents.not_faults_dataBlock`, `Contents.fits_of_not_faults` — the blocks that do not stop
  the program
- `Contents.catch_ok_iff`, `Contents.catch_of_leaps` — what comes of an encoded block
-/

namespace Dxian

namespace TimeZone

namespace Format

open BigEndian Reader

theorem take_encode (k : ℕ) (n : ℤ) (l : List UInt8) : (encode k n ++ l).take k = encode k n := by
  rw [List.take_append_of_le_length (length_encode k n).ge,
    List.take_of_length_le (length_encode k n).le]

theorem drop_encode (k m : ℕ) (n : ℤ) (l : List UInt8) :
    (encode k n ++ l).drop (k + m) = l.drop m := by
  rw [← List.drop_drop, List.drop_left' (length_encode k n)]

theorem drop_encode_self (k : ℕ) (n : ℤ) (l : List UInt8) : (encode k n ++ l).drop k = l :=
  List.drop_left' (length_encode k n)

theorem fits_length {n : ℕ} (h : n < 2 ^ 31) : Fits 4 n := by
  constructor
  · show -(256 : ℤ) ^ 4 ≤ 2 * n
    omega
  · show 2 * (n : ℤ) < 256 ^ 4
    omega

theorem TypeRecord.length_encode (r : TypeRecord) : r.encode.length = 6 := by
  rw [encode, List.length_append, BigEndian.length_encode]
  rfl

namespace Contents

variable {c : Contents}

@[simp] theorem length_header (c : Contents) : c.header.length = 24 := by
  simp only [header, List.length_append, length_encode]

theorem ofBytes_header (h : c.Counted) : Counters.ofBytes c.header =
    ⟨c.ut.length, c.std.length, c.leaps.length, c.transitions.length, c.types.length,
      c.designations.length⟩ := by
  have hlast : (encode 4 (c.designations.length : ℤ)).take 4 = encode 4 c.designations.length :=
    List.take_of_length_le (length_encode ..).le
  rw [Counters.ofBytes, header]
  -- the positions count the counters in front
  simp only [show 8 = 4 + (4 + 0) by rfl, show 12 = 4 + (4 + (4 + 0)) by rfl,
    show 16 = 4 + (4 + (4 + (4 + 0))) by rfl, show 20 = 4 + (4 + (4 + (4 + (4 + 0)))) by rfl]
  simp only [drop_encode, drop_encode_self, take_encode, hlast]
  rw [intOf_encode (fits_length h.ut), intOf_encode (fits_length h.std),
    intOf_encode (fits_length h.leaps), intOf_encode (fits_length h.transitions),
    intOf_encode (fits_length h.types), intOf_encode (fits_length h.designations)]

theorem ofBytes_typeRecord {r : TypeRecord} (h : Fits 4 r.utoff) :
    LocalTime.ofBytes r.encode = ⟨r.utoff, r.isdst, r.idx.toNat⟩ := by
  rw [LocalTime.ofBytes, TypeRecord.encode, take_encode, intOf_encode h,
    show 4 = 4 + 0 by rfl, show 5 = 4 + 1 by rfl, drop_encode, drop_encode]
  cases r.isdst
  · simp [natOf]
  · simp [natOf]

/-- A data block, with what follows it. -/
def dataBlock (c : Contents) (v1 : Bool) (trailing : List UInt8) : DataBlock where
  v1 := v1
  bytes := c.header ++ (c.block (timeSize v1) ++ trailing)

variable {v1 : Bool} {trailing : List UInt8}

theorem counters_dataBlock (h : c.Counted) : (c.dataBlock v1 trailing).counters =
    ⟨c.ut.length, c.std.length, c.leaps.length, c.transitions.length, c.types.length,
      c.designations.length⟩ := by
  have htake : (c.header ++ (c.block (timeSize v1) ++ trailing)).take 24 = c.header :=
    List.take_left' c.length_header
  rw [DataBlock.counters, dataBlock, htake, ofBytes_header h]

theorem length_flatMap {α : Type*} {enc : α → List UInt8} {k : ℕ} (l : List α)
    (h : ∀ a, (enc a).length = k) : (l.flatMap enc).length = l.length * k := by
  induction l with
  | nil => rw [List.length_nil, Nat.zero_mul]; rfl
  | cons a l ih =>
    rw [List.flatMap_cons, List.length_append, ih, h, List.length_cons, Nat.succ_mul, Nat.add_comm]

theorem length_tables (c : Contents) (v1 : Bool) : (c.tables (timeSize v1)).length =
    tablesSize v1 c.transitions.length c.types.length := by
  have htimes : (c.transitions.flatMap fun p => encode (timeSize v1) p.1).length =
      c.transitions.length * timeSize v1 := length_flatMap _ fun p => length_encode _ p.1
  have htypes : (c.types.flatMap TypeRecord.encode).length = c.types.length * 6 :=
    length_flatMap _ fun r => r.length_encode
  rw [tables, tablesSize, List.length_append, List.length_append, List.length_map, htimes, htypes,
    Nat.mul_one]

/-- The transition indices, as one-byte records. -/
theorem records_indices (l : List (ℤ × UInt8)) :
    records 1 natOf l.length (l.map (·.2)) = l.map fun p => p.2.toNat := by
  rw [List.map_eq_flatMap]
  exact records_flatMap fun p _ => ⟨rfl, by simp [natOf]⟩

theorem ofBytes_tables (wf : c.WellFormed (timeSize v1)) :
    Tables.ofBytes v1 c.transitions.length c.types.length (c.tables (timeSize v1)) =
      ⟨c.transitions.map (·.1), c.transitions.map fun p => p.2.toNat, c.localtimes⟩ := by
  have htimes : (c.transitions.flatMap fun p => encode (timeSize v1) p.1).length =
      c.transitions.length * timeSize v1 := length_flatMap _ fun p => length_encode _ p.1
  have hindices : (c.transitions.map (·.2)).length = c.transitions.length * 1 := by
    rw [List.length_map, Nat.mul_one]
  rw [Tables.ofBytes, tables, List.take_left' htimes, List.drop_left' htimes,
    List.take_left' hindices, List.drop_left' hindices, records_indices,
    records_flatMap fun p hp => ⟨length_encode _ p.1, intOf_encode (wf.times p hp)⟩,
    records_flatMap fun r hr => ⟨r.length_encode, ofBytes_typeRecord (wf.offsets r hr)⟩]
  rfl

theorem drop_header (c : Contents) (v1 : Bool) (trailing : List UInt8) (n : ℕ) :
    (c.dataBlock v1 trailing).bytes.drop (24 + n) =
      (c.block (timeSize v1) ++ trailing).drop n := by
  rw [dataBlock, ← List.drop_drop, List.drop_left' c.length_header]

theorem size_dataBlock (h : c.Counted) : (c.dataBlock v1 trailing).size =
    tablesSize v1 c.transitions.length c.types.length := by
  rw [DataBlock.size, counters_dataBlock h]
  rfl

theorem tables_dataBlock (h : c.Counted) (wf : c.WellFormed (timeSize v1)) :
    (c.dataBlock v1 trailing).tables =
      ⟨c.transitions.map (·.1), c.transitions.map fun p => p.2.toNat, c.localtimes⟩ := by
  have hbytes := c.drop_header v1 trailing 0
  rw [Nat.add_zero, List.drop_zero, block, List.append_assoc] at hbytes
  rw [DataBlock.tables, hbytes, size_dataBlock h, List.take_left' (c.length_tables v1),
    counters_dataBlock h]
  exact ofBytes_tables wf

theorem rest_dataBlock (h : c.Counted) : (c.dataBlock v1 trailing).rest =
    c.designations ++ (c.leaps.flatMap (fun p => encode (timeSize v1) p.1 ++ encode 4 p.2) ++
      (c.std ++ c.ut) ++ trailing) := by
  rw [DataBlock.rest, drop_header, size_dataBlock h, block, List.append_assoc,
    List.drop_left' (c.length_tables v1), List.append_assoc]

theorem utcOffset_localtimes (c : Contents) (i : UInt8) :
    ({ localtimes := c.localtimes } : Data).utcOffset i.toNat = c.offset i := by
  rw [Data.utcOffset, offset, localtimes, List.getElem?_map, Option.map_map]
  rfl

theorem pairs_dataBlock (h : c.Counted) (wf : c.WellFormed (timeSize v1)) :
    (c.dataBlock v1 trailing).pairs = c.transitions.map fun p => (p.1, p.2.toNat) := by
  rw [DataBlock.pairs, tables_dataBlock h wf, List.zip_map']

theorem tableData_dataBlock (h : c.Counted) (wf : c.WellFormed (timeSize v1)) :
    (c.dataBlock v1 trailing).tableData =
      { c.data [] with abbreviation := [] } := by
  rw [DataBlock.tableData, pairs_dataBlock h wf, tables_dataBlock h wf, data, List.map_map]
  congr 1
  refine List.map_congr_left fun p _ => ?_
  show Transition.mk _ _ _ = _
  rw [utcOffset_localtimes]

section NoLeaps

variable (h : c.Counted) (wf : c.WellFormed (timeSize v1)) (hleaps : c.leaps = [])
include h wf hleaps

theorem complete_dataBlock : (c.dataBlock v1 trailing).Complete := by
  have hcounters : (c.dataBlock v1 trailing).counters = _ := counters_dataBlock h
  have hlength : (c.dataBlock v1 trailing).bytes.length = _ :=
    congrArg List.length (show _ = c.header ++ (c.block (timeSize v1) ++ trailing) by rfl)
  rw [List.length_append, List.length_append, block, List.length_append, length_tables,
    length_header] at hlength
  -- the accepted counters, then their signs, the size of the tables and the indices
  refine ⟨⟨⟨by omega, ⟨?_, ?_, ?_⟩, ?_⟩, ?_, ?_⟩, ?_⟩
  · rw [hcounters, hleaps]
    rfl
  · rw [hcounters]
    cases wf.ut with
    | inl hnil => rw [hnil]; exact .inl rfl
    | inr hlen => rw [hlen]; exact .inr rfl
  · rw [hcounters]
    cases wf.std with
    | inl hnil => rw [hnil]; exact .inl rfl
    | inr hlen => rw [hlen]; exact .inr rfl
  · rw [hcounters]
    exact Int.natCast_nonneg _
  · rw [hcounters]
    exact Int.natCast_nonneg _
  · rw [size_dataBlock h]
    omega
  · intro i hi
    rw [tables_dataBlock h wf] at hi
    obtain ⟨p, hp, rfl⟩ := List.mem_map.mp hi
    have hidx := wf.indices p hp
    rw [hcounters]
    show (p.2.toNat : ℤ) < c.types.length
    omega

omit wf in
theorem footer_dataBlock : (c.dataBlock v1 trailing).footer = trailing := by
  have hcounters : (c.dataBlock v1 trailing).counters = _ := counters_dataBlock h
  have hindicators : (c.std ++ c.ut).length = c.std.length + c.ut.length := List.length_append
  rw [DataBlock.footer, rest_dataBlock h, hcounters, hleaps]
  simp only [Int.toNat_natCast, List.flatMap_nil, List.nil_append, Nat.add_assoc]
  rw [← List.drop_drop, List.drop_left, List.drop_left' hindicators]

theorem data_dataBlock :
    (c.dataBlock v1 trailing).data = c.data (if v1 then [] else trailing) := by
  have hcounters : (c.dataBlock v1 trailing).counters = _ := counters_dataBlock h
  rw [DataBlock.data, tableData_dataBlock h wf, footer_dataBlock h hleaps, rest_dataBlock h,
    hcounters, hleaps]
  simp only [Int.toNat_natCast, List.flatMap_nil, List.nil_append, List.append_assoc,
    List.take_left]
  rfl

omit wf hleaps in
theorem charcnt_dataBlock : (c.dataBlock v1 trailing).counters.charcnt = c.designations.length := by
  rw [counters_dataBlock h]

omit wf hleaps in
theorem charcnt_le : (c.dataBlock v1 trailing).counters.charcnt ≤
    (c.dataBlock v1 trailing).rest.length := by
  rw [charcnt_dataBlock h, rest_dataBlock h, List.length_append]
  omega

/-- **An encoded block** does not stop the program, if its local times are `int64_t`s and there
is room for its data. -/
theorem not_faults_dataBlock {mem : Memory} (hfits : c.SumsFit)
    (hroom : c.Room (if v1 then [] else trailing) mem) :
    ¬ (c.dataBlock v1 trailing).Faults mem := by
  have hcounters : (c.dataBlock v1 trailing).counters = _ := counters_dataBlock h
  have hcharcnt : (c.dataBlock v1 trailing).counters.charcnt = _ := charcnt_dataBlock h
  have htransitions := hroom.transitions
  have htypes := hroom.types
  have hdesignations := hroom.designations
  intro hfaults
  cases hfaults with
  | times _ hheap =>
    rw [hcounters, Int.toNat_natCast] at hheap
    omega
  | types _ _ _ hheap =>
    rw [hcounters, Int.toNat_natCast] at hheap
    omega
  | transition _ hk =>
    have hpairs : (c.dataBlock v1 trailing).pairs = _ := pairs_dataBlock h wf
    have hget := hk.get
    have hbad := hk.bad
    rw [hpairs, List.getElem?_map] at hget
    obtain ⟨p, hp, hpair⟩ := Option.map_eq_some_iff.mp hget
    obtain ⟨hlt, -⟩ := List.getElem?_eq_some_iff.mp hp
    have hsum := hfits p (List.mem_of_getElem? hp)
    have htypes : (c.dataBlock v1 trailing).tables.types = c.localtimes := by
      rw [tables_dataBlock h wf]
    have hlocal : ({ localtimes := c.localtimes } : Data).LocalFits (p.1, p.2.toNat) := by
      rw [Data.LocalFits, utcOffset_localtimes]
      exact hsum
    rw [htypes, ← hpair] at hbad
    have hheap := hbad.resolve_left (not_not_intro hlocal)
    have hlength : ({ localtimes := c.localtimes } : Data).transitions.length = 0 := rfl
    omega
  | negative _ hneg => omega
  | stack _ hstack => omega
  | designations _ _ hheap => omega
  | footer _ hv1 _ _ hheap =>
    have hfooter := hroom.footer
    obtain rfl : v1 = false := hv1
    rw [footer_dataBlock h hleaps] at hheap
    exact absurd hfooter (Nat.not_le.mpr hheap)

/-- The transition `k` of an encoded block stops the program. -/
theorem faults_of_transition {mem : Memory} {k : ℕ} (hk : k < c.transitions.length)
    (hbad : ¬ CInt.InRange64 (c.transitions[k].1 + c.offset c.transitions[k].2) ∨
      mem.heap < (k + 1) * 24) : (c.dataBlock v1 trailing).Faults mem := by
  have hcomplete : (c.dataBlock v1 trailing).Complete := complete_dataBlock h wf hleaps
  have htypes : (c.dataBlock v1 trailing).tables.types = c.localtimes := by
    rw [tables_dataBlock h wf]
  refine .transition (k := k) (p := (c.transitions[k].1, c.transitions[k].2.toNat))
    hcomplete.toTabled ⟨?_, fun q hq => hcomplete.index_lt (List.mem_of_mem_take hq), ?_⟩
  · rw [pairs_dataBlock h wf, List.getElem?_map, List.getElem?_eq_getElem hk]
    rfl
  · rw [htypes, Data.LocalFits, utcOffset_localtimes, List.length_nil, Nat.zero_add]
    exact hbad

/-- An encoded block that does not stop the program. -/
theorem fits_of_not_faults {mem : Memory} (hfaults : ¬ (c.dataBlock v1 trailing).Faults mem) :
    c.SumsFit ∧ c.Room (if v1 then [] else trailing) mem := by
  have hcounters : (c.dataBlock v1 trailing).counters = _ := counters_dataBlock h
  have hcharcnt : (c.dataBlock v1 trailing).counters.charcnt = _ := charcnt_dataBlock h
  have hcomplete : (c.dataBlock v1 trailing).Complete := complete_dataBlock h wf hleaps
  have hle : (c.dataBlock v1 trailing).counters.charcnt ≤ _ := charcnt_le h
  refine ⟨fun p hp => ?_, ⟨?_, ?_, ⟨?_, ?_⟩, ?_⟩⟩
  · by_contra hsum
    obtain ⟨k, hk, rfl⟩ := List.getElem_of_mem hp
    exact hfaults (faults_of_transition h wf hleaps hk (.inl hsum))
  · -- the last transition is one too many
    by_contra hheap
    have hlast : c.transitions.length - 1 < c.transitions.length := by omega
    exact hfaults (faults_of_transition h wf hleaps hlast (.inr (by omega)))
  · by_contra hheap
    have hsize := (c.dataBlock v1 trailing).arraysSize_le
    have htables := hcomplete.tables
    refine hfaults (.types hcomplete.toBegins hcomplete.typecnt (by omega) ?_)
    rw [hcounters, Int.toNat_natCast]
    omega
  · by_contra hstack
    exact hfaults (.stack hcomplete (by omega))
  · by_contra hheap
    exact hfaults (.designations hcomplete hle (by omega))
  · cases v1 with
    | true => exact Nat.zero_le _
    | false =>
      by_contra hheap
      refine hfaults (.footer hcomplete rfl (by omega) hle ?_)
      rw [footer_dataBlock h hleaps]
      exact Nat.not_le.mp hheap

section Catch

variable {mem : Memory} {f : ByteFile} (hf : f.rest = (c.dataBlock v1 trailing).bytes)
include hf

theorem catch_of_not_faults (hfaults : ¬ (c.dataBlock v1 trailing).Faults mem) :
    catchLogicError (readDataBlock mem {} v1) f =
      .ok (some (c.data (if v1 then [] else trailing))) := by
  have hcharcnt : (c.dataBlock v1 trailing).counters.charcnt = _ := charcnt_dataBlock h
  have hle : (c.dataBlock v1 trailing).counters.charcnt ≤ _ := charcnt_le h
  rw [← data_dataBlock h wf hleaps]
  have hcatch := DataBlock.catch_of_le hf hfaults (complete_dataBlock h wf hleaps) (by omega) hle
  exact hcatch

/-- **The data of an encoded block**, and when they are read. -/
theorem catch_ok_iff {result : Option Data} :
    catchLogicError (readDataBlock mem {} v1) f = .ok result ↔
      (c.SumsFit ∧ c.Room (if v1 then [] else trailing) mem) ∧
        result = some (c.data (if v1 then [] else trailing)) := by
  constructor
  · intro hok
    have hfaults : ¬ (c.dataBlock v1 trailing).Faults mem := by
      intro hfaults
      obtain ⟨fault, hfault⟩ := DataBlock.catch_of_faults hf hfaults
      cases hok.symm.trans hfault
    exact ⟨fits_of_not_faults h wf hleaps hfaults,
      Except.ok.inj (hok.symm.trans (catch_of_not_faults h wf hleaps hf hfaults))⟩
  · rintro ⟨⟨hfits, hroom⟩, rfl⟩
    exact catch_of_not_faults h wf hleaps hf (not_faults_dataBlock h wf hleaps hfits hroom)

end Catch

end NoLeaps

/-- A block with leap seconds is refused. -/
theorem catch_of_leaps (h : c.Counted) (hleaps : c.leaps ≠ []) {mem : Memory} {f : ByteFile}
    (hf : f.rest = (c.dataBlock v1 trailing).bytes) :
    catchLogicError (readDataBlock mem {} v1) f = .ok none := by
  have hlength : 24 ≤ (c.dataBlock v1 trailing).bytes.length := by
    show 24 ≤ (c.header ++ _).length
    rw [List.length_append, length_header]
    omega
  have haccepted : ¬ (c.dataBlock v1 trailing).counters.Accepted := by
    intro haccepted
    have hleapcnt := haccepted.leapcnt
    rw [counters_dataBlock h] at hleapcnt
    exact hleaps (List.length_eq_zero_iff.mp (Int.ofNat_eq_zero.mp hleapcnt))
  have hcatch := DataBlock.catch_of_not_accepted mem hf hlength haccepted
  exact hcatch

end Contents

/-! ## Headers -/

section Header

variable {version : UInt8} {reserved : Reserved} {c : Contents} {l : List UInt8}

theorem length_header (version : UInt8) (reserved : Reserved) (c : Contents) :
    (header version reserved c).length = 44 := by
  rw [header, List.length_append, List.length_append, List.length_append, reserved.2,
    c.length_header]
  rfl

theorem take_header (version : UInt8) (reserved : Reserved) (c : Contents) (l : List UInt8) :
    (header version reserved c ++ l).take 4 = magic := by
  rw [header, List.append_assoc]
  exact List.take_left' rfl

theorem drop_header (version : UInt8) (reserved : Reserved) (c : Contents) (l : List UInt8) :
    (header version reserved c ++ l).drop 20 = c.header ++ l := by
  have hlength : (magic ++ ([version] ++ reserved.1)).length = 20 := by
    rw [List.length_append, List.length_append, reserved.2]
    rfl
  have hdrop : (magic ++ ([version] ++ reserved.1) ++ (c.header ++ l)).drop 20 = c.header ++ l :=
    List.drop_left' hlength
  simpa only [header, List.append_assoc] using hdrop

theorem hasHeader_header (version : UInt8) (reserved : Reserved) (c : Contents) (l : List UInt8) :
    HasHeader (header version reserved c ++ l) where
  length := by
    rw [List.length_append, length_header]
    omega
  magic := take_header version reserved c l

theorem versionOf_header (version : UInt8) (reserved : Reserved) (c : Contents) (l : List UInt8) :
    versionOf (header version reserved c ++ l) = [version] := by
  rw [header, List.append_assoc]
  rfl

theorem headerCounters_header (h : c.Counted) (l : List UInt8) :
    headerCounters (header version reserved c ++ l) =
      ⟨c.ut.length, c.std.length, c.leaps.length, c.transitions.length, c.types.length,
        c.designations.length⟩ := by
  rw [headerCounters, drop_header, List.take_left' c.length_header, c.ofBytes_header h]

end Header

end Format

end TimeZone

end Dxian
