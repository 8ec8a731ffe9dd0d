import Dxian.Base.TimeZone.Decode

/-!
# The versions of the format

A file of version 1 or 2 is decoded. A later version is read as version 1: its 32-bit data
are used, and the 64-bit data behind them are not.

## Main results

- `readTimeZoneFile_encode` — the data of a file of version 1 or 2
- `Version2.keptByVersion3_iff` — when a file of version 3 gives the data of version 2
-/

namespace Dxian

namespace TimeZone

namespace Format

/-- The local times of 32-bit data are `int64_t`s. -/
theorem Contents.WellFormed.sumsFit {c : Contents} (wf : c.WellFormed 4) : c.SumsFit := by
  intro p hp
  have hidx := wf.indices p hp
  obtain ⟨hlow, hhigh⟩ := wf.times p hp
  obtain ⟨hlow', hhigh'⟩ := wf.offsets _ (List.getElem_mem hidx)
  have heq : c.offset p.2 = (c.types[p.2.toNat]).utoff := by
    rw [offset, List.getElem?_eq_getElem hidx]
    rfl
  rw [← heq] at hlow' hhigh'
  constructor
  · omega
  · omega

section First

variable {mem : Memory} {version : UInt8} {reserved : Reserved} {c : Contents}
  {trailing : List UInt8}

theorem readTimeZoneFile_first (hversion : version ≠ version2) :
    readTimeZoneFile mem (some (header version reserved c ++ (c.block 4 ++ trailing))) {} =
      catchLogicError (readDataBlock mem {} true)
        ⟨header version reserved c ++ (c.block 4 ++ trailing), 20⟩ := by
  refine readTimeZoneFile_of_v1 (hasHeader_header ..) ?_
  rw [versionOf_header]
  intro heq
  exact hversion (List.singleton_inj.mp heq)

theorem rest_first : (⟨header version reserved c ++ (c.block 4 ++ trailing), 20⟩ :
    ByteFile).rest = (c.dataBlock true trailing).bytes :=
  drop_header ..

/-- The block behind the first header, of any version but 2. -/
theorem read_first_iff (hversion : version ≠ version2) (h : c.Counted) (wf : c.WellFormed 4)
    (hleaps : c.leaps = []) {result : Option Data} :
    readTimeZoneFile mem (some (header version reserved c ++ (c.block 4 ++ trailing))) {} =
      .ok result ↔ c.Room [] mem ∧ result = some (c.data []) := by
  have hwf : c.WellFormed (timeSize true) := wf
  rw [readTimeZoneFile_first hversion, Contents.catch_ok_iff h hwf hleaps rest_first,
    and_iff_right wf.sumsFit]
  rfl

theorem read_first_of_leaps (hversion : version ≠ version2) (h : c.Counted)
    (hleaps : c.leaps ≠ []) :
    readTimeZoneFile mem (some (header version reserved c ++ (c.block 4 ++ trailing))) {} =
      .ok none := by
  rw [readTimeZoneFile_first hversion]
  exact Contents.catch_of_leaps h hleaps rest_first

end First

namespace Contents

theorem length_block (c : Contents) (v1 : Bool) : (c.block (timeSize v1)).length =
    tablesSize v1 c.transitions.length c.types.length + (c.designations.length +
      (c.leaps.length * (timeSize v1 + 4) + (c.std.length + c.ut.length))) := by
  have hleaps : (c.leaps.flatMap fun p =>
      BigEndian.encode (timeSize v1) p.1 ++ BigEndian.encode 4 p.2).length =
        c.leaps.length * (timeSize v1 + 4) :=
    length_flatMap _ fun p => by
      rw [List.length_append, BigEndian.length_encode, BigEndian.length_encode]
  rw [block, List.length_append, List.length_append, List.length_append, List.length_append,
    length_tables, hleaps]

theorem length_block_four (c : Contents) : (c.block 4).length =
    5 * c.transitions.length + 6 * c.types.length + c.designations.length + 8 * c.leaps.length +
      c.std.length + c.ut.length := by
  have hlength : (c.block 4).length = _ := c.length_block true
  rw [hlength]
  show c.transitions.length * 4 + (c.transitions.length * 1 + c.types.length * 6) +
    (_ + (c.leaps.length * (4 + 4) + _)) = _
  omega

theorem length_block_eight (c : Contents) : (c.block 8).length =
    9 * c.transitions.length + 6 * c.types.length + c.designations.length + 12 * c.leaps.length +
      c.std.length + c.ut.length := by
  have hlength : (c.block 8).length = _ := c.length_block false
  rw [hlength]
  show c.transitions.length * 8 + (c.transitions.length * 1 + c.types.length * 6) +
    (_ + (c.leaps.length * (8 + 4) + _)) = _
  omega

end Contents

/-- The products of type `int` that the reader computes for a first block do not overflow. -/
def Contents.Skippable (c : Contents) : Prop :=
  6 * c.types.length < 2 ^ 31 ∧ 8 * c.leaps.length < 2 ^ 31

namespace Version2

variable {file : Version2} {mem : Memory}

theorem fits_iff (h : file.first.Counted) :
    (headerCounters (file.encode version2)).Fits ↔ file.first.Skippable := by
  rw [encode, headerCounters_header h]
  show (CInt.InRange (6 * (file.first.types.length : ℤ)) ∧
    CInt.InRange (8 * (file.first.leaps.length : ℤ))) ↔ _ ∧ _
  omega

/-- The second header is found. -/
theorem secondHeader_encode (h : file.first.Counted) :
    secondHeader (file.encode version2) = 44 + (file.first.block 4).length := by
  have hskip : (headerCounters (file.encode version2)).skipSize = (file.first.block 4).length := by
    have hut := h.ut
    have hstd := h.std
    have hleaps := h.leaps
    have htransitions := h.transitions
    have htypes := h.types
    have hdesignations := h.designations
    rw [encode, headerCounters_header h, Counters.skipSize, Contents.length_block_four]
    push_cast
    rw [Int.bmod_eq_of_le (by omega) (by omega)]
    omega
  rw [secondHeader, hskip, ByteFile.seekCur_natCast]
  rfl

theorem drop_encode (file : Version2) (version : UInt8) :
    (file.encode version).drop (44 + (file.first.block 4).length) =
      header file.version file.reserved' file.second ++ (file.second.block 8 ++ file.footer) := by
  rw [encode, ← List.drop_drop, List.drop_left' (length_header ..), List.drop_left]

/-- The second block is read. -/
theorem readTimeZoneFile_second (h : file.first.Counted) (hskip : file.first.Skippable) :
    readTimeZoneFile mem (some (file.encode version2)) {} =
      catchLogicError (readDataBlock mem {} false)
        ⟨file.encode version2, 44 + (file.first.block 4).length + 20⟩ := by
  have hmagic : ((file.encode version2).drop (secondHeader (file.encode version2))).take 4 =
      magic := by
    rw [secondHeader_encode h, drop_encode, take_header]
  have hheader : HasHeader (file.encode version2) := hasHeader_header ..
  have hversion : versionOf (file.encode version2) = [version2] := versionOf_header ..
  rw [readTimeZoneFile_of_v2 hheader hversion ((fits_iff h).mpr hskip) hmagic,
    secondHeader_encode h]

theorem rest_second (file : Version2) :
    (⟨file.encode version2, 44 + (file.first.block 4).length + 20⟩ : ByteFile).rest =
      (file.second.dataBlock false file.footer).bytes := by
  show (file.encode version2).drop _ = _
  rw [← List.drop_drop, drop_encode, drop_header]
  rfl

section Second

variable (h : file.first.Counted) (hskip : file.first.Skippable) (h' : file.second.Counted)
include h hskip h'

theorem read_second_iff (wf : file.second.WellFormed 8) (hleaps : file.second.leaps = [])
    {result : Option Data} :
    readTimeZoneFile mem (some (file.encode version2)) {} = .ok result ↔
      (file.second.SumsFit ∧ file.second.Room file.footer mem) ∧
        result = some (file.second.data file.footer) := by
  have hwf : file.second.WellFormed (timeSize false) := wf
  rw [readTimeZoneFile_second h hskip]
  exact Contents.catch_ok_iff h' hwf hleaps file.rest_second

theorem read_second_of_leaps (hleaps : file.second.leaps ≠ []) :
    readTimeZoneFile mem (some (file.encode version2)) {} = .ok none := by
  rw [readTimeZoneFile_second h hskip]
  exact Contents.catch_of_leaps h' hleaps file.rest_second

end Second

end Version2

/-! ## Versions 1 and 2 -/

theorem Version1.counted {file : Version1} (h : file.encode.length < 2 ^ 31) :
    file.contents.Counted := by
  have hblock := file.contents.length_block_four
  rw [encode, List.length_append, length_header] at h
  exact ⟨by omega, by omega, by omega, by omega, by omega, by omega⟩

theorem Version2.counted {file : Version2} {version : UInt8}
    (h : (file.encode version).length < 2 ^ 31) :
    file.first.Counted ∧ file.first.Skippable ∧ file.second.Counted := by
  have hfirst := file.first.length_block_four
  have hsecond := file.second.length_block_eight
  rw [encode, List.length_append, List.length_append, List.length_append, List.length_append,
    length_header, length_header] at h
  exact ⟨⟨by omega, by omega, by omega, by omega, by omega, by omega⟩, ⟨by omega, by omega⟩,
    ⟨by omega, by omega, by omega, by omega, by omega, by omega⟩⟩

/-- A local time is the sum of a time and an offset. -/
theorem Contents.localtime_eq {c : Contents} {footer : List UInt8} {trans : Transition}
    (htrans : trans ∈ (c.data footer).transitions) :
    trans.localtime = trans.utctime + (c.data footer).utcOffset trans.localtimeIdx := by
  obtain ⟨p, -, rfl⟩ := List.mem_map.mp htrans
  have hoffset : (c.data footer).utcOffset p.2.toNat = c.offset p.2 := c.utcOffset_localtimes p.2
  show p.1 + c.offset p.2 = p.1 + (c.data footer).utcOffset p.2.toNat
  rw [hoffset]

/-- **Versions 1 and 2.** The data of a zone are exactly those of the block that is used, if
there is room for them: of a file of version 2 the second one, whatever the first one says, if
its local times are `int64_t`s. -/
theorem readTimeZoneFile_encode (mem : Memory) :
    (∀ file : Version1, file.contents.WellFormed 4 → file.contents.leaps = [] →
      file.encode.length < 2 ^ 31 → file.contents.Room [] mem →
        readTimeZoneFile mem (some file.encode) {} = .ok (some (file.contents.data [])) ∧
        ∀ trans ∈ (file.contents.data []).transitions, trans.localtime =
          trans.utctime + (file.contents.data []).utcOffset trans.localtimeIdx) ∧
    (∀ file : Version2, file.second.WellFormed 8 → file.second.leaps = [] →
      (file.encode version2).length < 2 ^ 31 → file.second.Room file.footer mem →
      file.second.SumsFit →
        readTimeZoneFile mem (some (file.encode version2)) {} =
          .ok (some (file.second.data file.footer)) ∧
        ∀ trans ∈ (file.second.data file.footer).transitions, trans.localtime =
          trans.utctime + (file.second.data file.footer).utcOffset trans.localtimeIdx) := by
  constructor
  · intro file wf hleaps hlength hroom
    have hversion : (0 : UInt8) ≠ version2 := by decide
    have hbytes : file.encode = header 0 file.reserved file.contents ++
        (file.contents.block 4 ++ []) := by rw [List.append_nil]; rfl
    rw [hbytes]
    exact ⟨(read_first_iff hversion (Version1.counted hlength) wf hleaps).mpr ⟨hroom, rfl⟩,
      fun trans htrans => Contents.localtime_eq htrans⟩
  · intro file wf hleaps hlength hroom hfits
    obtain ⟨hfirst, hskip, hsecond⟩ := Version2.counted hlength
    exact ⟨(Version2.read_second_iff hfirst hskip hsecond wf hleaps).mpr ⟨⟨hfits, hroom⟩, rfl⟩,
      fun trans htrans => Contents.localtime_eq htrans⟩

/-- The first block that a file has that is made for later versions. -/
def emptyContents : Contents where
  transitions := []
  types := [⟨0, false, 0⟩]
  designations := [0]
  leaps := []
  std := []
  ut := []

/-- Local mean time, from 1901 on the time of the eighth zone. -/
def shanghaiContents : Contents where
  transitions := [(-2177481943, 1)]
  types := [⟨29143, false, 0⟩, ⟨28800, false, 4⟩]
  designations := [0x4c, 0x4d, 0x54, 0, 0x43, 0x53, 0x54, 0]
  leaps := []
  std := []
  ut := []

def unused : Reserved := ⟨List.replicate 15 0, rfl⟩

def shanghai : Version2 where
  reserved := unused
  first := emptyContents
  version := version2
  reserved' := unused
  second := shanghaiContents
  footer := [10, 0x43, 0x53, 0x54, 0x2d, 0x38, 10]

theorem wellFormed_emptyContents : emptyContents.WellFormed 4 :=
  ⟨by decide, by decide, by decide, by decide, by decide, .inl rfl, .inl rfl⟩

theorem wellFormed_shanghaiContents : shanghaiContents.WellFormed 8 :=
  ⟨by decide, by decide, by decide, by decide, by decide, .inl rfl, .inl rfl⟩

theorem room_emptyContents : emptyContents.Room [] usualMemory :=
  ⟨by decide, by decide, by decide, by decide⟩

theorem room_shanghaiContents : shanghaiContents.Room shanghai.footer usualMemory :=
  ⟨by decide, by decide, by decide, by decide⟩

theorem readTimeZoneFile_encode_shanghai :
    readTimeZoneFile usualMemory (some (Version1.encode ⟨unused, emptyContents⟩)) {} =
        .ok (some { localtimes := [⟨0, false, 0⟩], abbreviation := [0] }) ∧
      readTimeZoneFile usualMemory (some (shanghai.encode version2)) {} =
        .ok (some {
          transitions := [⟨-2177481943, -2177453143, 1⟩]
          localtimes := [⟨29143, false, 0⟩, ⟨28800, false, 4⟩]
          abbreviation := [0x4c, 0x4d, 0x54, 0, 0x43, 0x53, 0x54, 0]
          tzstring := [10, 0x43, 0x53, 0x54, 0x2d, 0x38, 10] }) :=
  ⟨((readTimeZoneFile_encode usualMemory).1 ⟨unused, emptyContents⟩ wellFormed_emptyContents rfl
      (by decide) room_emptyContents).1,
    ((readTimeZoneFile_encode usualMemory).2 shanghai wellFormed_shanghaiContents rfl
      (by decide +kernel) room_shanghaiContents (by decide)).1⟩

/-- A zone whose transition is the last second that there is. -/
def lastSecond : Version2 where
  reserved := unused
  first := emptyContents
  version := version2
  reserved' := unused
  second := { emptyContents with
    transitions := [(9223372036854775807, 0)]
    types := [⟨28800, false, 0⟩] }
  footer := [10, 10]

/-- A zone with `n` bytes of designations. -/
def wideZone (n : ℕ) : Version1 where
  reserved := unused
  contents := { emptyContents with designations := List.replicate n 0 }

section WideZone

variable {n : ℕ}

theorem wellFormed_wideZone (hn : 0 < n) : (wideZone n).contents.WellFormed 4 where
  types := wellFormed_emptyContents.types
  designations := List.ne_nil_of_length_pos (List.length_replicate.symm ▸ hn)
  times := nofun
  indices := nofun
  offsets := wellFormed_emptyContents.offsets
  std := .inl rfl
  ut := .inl rfl

theorem length_wideZone (n : ℕ) : (wideZone n).encode.length = n + 50 := by
  rw [wideZone, Version1.encode, List.length_append, length_header, Contents.length_block_four]
  simp only [List.length_replicate, emptyContents, List.length_nil, List.length_singleton]
  omega

/-- The buffer of the designations is too large. -/
theorem readTimeZoneFile_wideZone (hn : 0 < n) (hlength : n + 50 < 2 ^ 31)
    (hstack : mem.stack < n) :
    ∃ fault, readTimeZoneFile mem (some (wideZone n).encode) {} = .error fault := by
  have hbytes : (wideZone n).encode = header 0 (wideZone n).reserved (wideZone n).contents ++
      ((wideZone n).contents.block 4 ++ []) := by rw [List.append_nil]; rfl
  have hcounted := Version1.counted ((length_wideZone n).trans_lt hlength)
  have wf : (wideZone n).contents.WellFormed (timeSize true) := wellFormed_wideZone hn
  have hcomplete : ((wideZone n).contents.dataBlock true []).Complete :=
    Contents.complete_dataBlock hcounted wf rfl
  have hcharcnt : ((wideZone n).contents.dataBlock true []).counters.charcnt = _ :=
    Contents.charcnt_dataBlock hcounted
  have hdesignations : (wideZone n).contents.designations.length = n := List.length_replicate
  have hversion : (0 : UInt8) ≠ version2 := by decide
  rw [hbytes, readTimeZoneFile_first hversion]
  have hlarge : mem.stack < ((wideZone n).contents.dataBlock true []).counters.charcnt := by omega
  have hrest : (⟨header 0 (wideZone n).reserved (wideZone n).contents ++
      ((wideZone n).contents.block 4 ++ []), 20⟩ : ByteFile).rest =
        ((wideZone n).contents.dataBlock true []).bytes := rest_first
  have hcatch := DataBlock.catch_of_stack hrest hcomplete hlarge
  exact hcatch

end WideZone

/-- The local time of a transition may overflow, and designations may be too large for the
stack. -/
theorem readTimeZoneFile_encode_faults :
    (lastSecond.second.WellFormed 8 ∧ lastSecond.second.leaps = [] ∧
      (lastSecond.encode version2).length < 2 ^ 31 ∧
      readTimeZoneFile usualMemory (some (lastSecond.encode version2)) {} = .error .overflow) ∧
    ((wideZone 16777216).contents.WellFormed 4 ∧ (wideZone 16777216).contents.leaps = [] ∧
      (wideZone 16777216).encode.length < 2 ^ 31 ∧
      ∃ fault, readTimeZoneFile usualMemory (some (wideZone 16777216).encode) {} =
        .error fault) := by
  have hstack : usualMemory.stack < 16777216 := by decide
  have hlength := length_wideZone 16777216
  refine ⟨⟨⟨by decide, by decide, by decide, by decide, by decide, .inl rfl, .inl rfl⟩, rfl,
    by decide +kernel, by decide +kernel⟩, wellFormed_wideZone (by decide), rfl, by omega,
    readTimeZoneFile_wideZone (by decide) (by decide) hstack⟩

/-! ## Version 3 -/

/-- The version byte `'3'`. -/
def version3 : UInt8 := 0x33

/-- A file with two well-formed blocks, whose counters are those of an `int32_t`. -/
structure Version2.WellFormed (file : Version2) : Prop where
  first : file.first.WellFormed 4
  second : file.second.WellFormed 8
  counted : file.first.Counted
  counted' : file.second.Counted

/-- The result of the reader, the local time types and the transitions. -/
def zoneOf (result : Except Fault (Option Data)) :
    Except Fault (Option (List LocalTime × List Transition)) :=
  result.map (Option.map fun data => (data.localtimes, data.transitions))

/-- There is room for the data of either block. -/
structure Version2.Room (file : Version2) (mem : Memory) : Prop where
  first : file.first.Room [] mem
  second : file.second.Room file.footer mem

/-- The file of version 3 is read, and gives what the file of version 2 gives. -/
def Version2.KeptByVersion3 (file : Version2) (mem : Memory) : Prop :=
  ∃ zone, zoneOf (readTimeZoneFile mem (some (file.encode version3)) {}) = .ok zone ∧
    zoneOf (readTimeZoneFile mem (some (file.encode version2)) {}) = .ok zone

/-- The blocks agree: neither is used, or they have the same types and transitions. -/
def Version2.BlocksAgree (file : Version2) : Prop :=
  (file.first.leaps ≠ [] ∧ file.second.leaps ≠ []) ∨
    (file.first.leaps = [] ∧ file.second.leaps = [] ∧ file.first.types = file.second.types ∧
      file.first.transitions = file.second.transitions)

namespace Contents

variable {c c' : Contents}

theorem localtimes_inj : c.localtimes = c'.localtimes ↔ c.types = c'.types := by
  have hinjective : Function.Injective fun r : TypeRecord =>
      (⟨r.utoff, r.isdst, r.idx.toNat⟩ : LocalTime) := by
    intro r r' heq
    obtain ⟨hutoff, hisdst, hidx⟩ := LocalTime.mk.inj heq
    cases r
    cases r'
    simp_all [UInt8.toNat_inj]
  exact (List.map_injective_iff.mpr hinjective).eq_iff

theorem transitions_eq {footer footer' : List UInt8}
    (h : (c.data footer).transitions = (c'.data footer').transitions) :
    c.transitions = c'.transitions := by
  have hmap := congrArg (List.map fun trans => (trans.utctime, trans.localtimeIdx)) h
  rw [data, data, List.map_map, List.map_map] at hmap
  have hinjective : Function.Injective fun p : ℤ × UInt8 => (p.1, p.2.toNat) := by
    intro p p' heq
    obtain ⟨htime, hidx⟩ := Prod.mk.inj heq
    exact Prod.ext htime (UInt8.toNat_inj.mp hidx)
  exact (List.map_injective_iff.mpr hinjective) hmap

/-- Two blocks give the same zone if they say the same. -/
theorem zoneOf_data_iff {footer footer' : List UInt8} :
    zoneOf (.ok (some (c.data footer))) = zoneOf (.ok (some (c'.data footer'))) ↔
      c.types = c'.types ∧ c.transitions = c'.transitions := by
  constructor
  · intro heq
    obtain ⟨hlocaltimes, htransitions⟩ := Prod.mk.inj (Option.some.inj (Except.ok.inj heq))
    exact ⟨localtimes_inj.mp hlocaltimes, transitions_eq htransitions⟩
  · intro h
    have hoffset : c.offset = c'.offset := by
      funext i
      rw [offset, offset, h.1]
    show Except.ok (some (c.localtimes, (c.data footer).transitions)) =
      Except.ok (some (c'.localtimes, (c'.data footer').transitions))
    rw [localtimes_inj.mpr h.1, data, data, hoffset, h.2]

end Contents

namespace Version2

variable {file : Version2} {mem : Memory}

theorem read_version3_iff (wf : file.WellFormed) {result : Option Data} :
    readTimeZoneFile mem (some (file.encode version3)) {} = .ok result ↔
      (file.first.leaps ≠ [] ∧ result = none) ∨
        (file.first.leaps = [] ∧ file.first.Room [] mem ∧
          result = some (file.first.data [])) := by
  have hversion : version3 ≠ version2 := by decide
  by_cases hleaps : file.first.leaps = []
  · rw [encode, read_first_iff hversion wf.counted wf.first hleaps]
    simp [hleaps]
  · rw [encode, read_first_of_leaps hversion wf.counted hleaps]
    simp [hleaps, eq_comm]

theorem overflow_version2 (wf : file.WellFormed) (hskip : ¬ file.first.Skippable) :
    readTimeZoneFile mem (some (file.encode version2)) {} = .error .overflow := by
  have hheader : HasHeader (file.encode version2) := hasHeader_header ..
  have hversion : versionOf (file.encode version2) = [version2] := versionOf_header ..
  exact readTimeZoneFile_of_overflow hheader hversion (mt (fits_iff wf.counted).mp hskip)

theorem read_version2_iff (wf : file.WellFormed) {result : Option Data} :
    readTimeZoneFile mem (some (file.encode version2)) {} = .ok result ↔
      file.first.Skippable ∧ ((file.second.leaps ≠ [] ∧ result = none) ∨
        (file.second.leaps = [] ∧ (file.second.SumsFit ∧ file.second.Room file.footer mem) ∧
          result = some (file.second.data file.footer))) := by
  by_cases hskip : file.first.Skippable
  · by_cases hleaps : file.second.leaps = []
    · rw [read_second_iff wf.counted hskip wf.counted' wf.second hleaps]
      simp [hskip, hleaps]
    · rw [read_second_of_leaps wf.counted hskip wf.counted' hleaps]
      simp [hskip, hleaps, eq_comm]
  · -- only version 2 computes the products
    rw [overflow_version2 wf hskip]
    simp [hskip]

theorem exists_of_zoneOf_eq_ok {x : Except Fault (Option Data)}
    {zone : Option (List LocalTime × List Transition)} (h : zoneOf x = .ok zone) :
    ∃ result, x = .ok result ∧ zoneOf (.ok result) = .ok zone := by
  cases x with
  | error fault => cases h
  | ok result => exact ⟨result, rfl, h⟩

/-- Blocks that agree have the same local times. -/
theorem BlocksAgree.sumsFit (wf : file.WellFormed) (h : file.BlocksAgree)
    (hleaps : file.second.leaps = []) : file.second.SumsFit := by
  rcases h with h | ⟨-, -, htypes, htransitions⟩
  · exact absurd hleaps h.2
  · have hoffset : file.first.offset = file.second.offset := by
      funext i
      rw [Contents.offset, Contents.offset, htypes]
    have hfits := wf.first.sumsFit
    rw [Contents.SumsFit, htransitions, hoffset] at hfits
    exact hfits

/-- **Version 3** gives the zone of version 2 exactly if the 32-bit data say the same, if there
is room for what is read. -/
theorem keptByVersion3_iff (wf : file.WellFormed) :
    file.KeptByVersion3 mem ↔
      file.first.Skippable ∧ file.BlocksAgree ∧ (file.first.leaps = [] → file.Room mem) := by
  constructor
  · rintro ⟨zone, hzone, hzone'⟩
    obtain ⟨result, hread, hzone⟩ := exists_of_zoneOf_eq_ok hzone
    obtain ⟨result', hread', hzone'⟩ := exists_of_zoneOf_eq_ok hzone'
    have heq := hzone.trans hzone'.symm
    obtain ⟨hskip, hsecond⟩ := (read_version2_iff wf).mp hread'
    refine ⟨hskip, ?_⟩
    rcases (read_version3_iff wf).mp hread with ⟨hleaps, rfl⟩ | ⟨hleaps, hroom, rfl⟩ <;>
      rcases hsecond with ⟨hleaps', rfl⟩ | ⟨hleaps', ⟨-, hroom'⟩, rfl⟩
    · exact ⟨.inl ⟨hleaps, hleaps'⟩, fun hnil => absurd hnil hleaps⟩
    · cases heq
    · cases heq
    · obtain ⟨htypes, htransitions⟩ := Contents.zoneOf_data_iff.mp heq
      exact ⟨.inr ⟨hleaps, hleaps', htypes, htransitions⟩, fun _ => ⟨hroom, hroom'⟩⟩
  · rintro ⟨hskip, hagree, hroom⟩
    rcases hagree with ⟨hleaps, hleaps'⟩ | ⟨hleaps, hleaps', htypes, htransitions⟩
    · exact ⟨none, congrArg zoneOf ((read_version3_iff wf).mpr (.inl ⟨hleaps, rfl⟩)),
        congrArg zoneOf ((read_version2_iff wf).mpr ⟨hskip, .inl ⟨hleaps', rfl⟩⟩)⟩
    · have hfits := BlocksAgree.sumsFit wf (.inr ⟨hleaps, hleaps', htypes, htransitions⟩) hleaps'
      have hread := congrArg zoneOf ((read_version3_iff wf).mpr
        (.inr ⟨hleaps, (hroom hleaps).first, rfl⟩))
      have hread' := congrArg zoneOf ((read_version2_iff wf).mpr
        ⟨hskip, .inr ⟨hleaps', ⟨hfits, (hroom hleaps).second⟩, rfl⟩⟩)
      rw [← Contents.zoneOf_data_iff.mpr ⟨htypes, htransitions⟩] at hread'
      exact ⟨_, hread, hread'⟩

theorem wellFormed_shanghai : shanghai.WellFormed where
  first := wellFormed_emptyContents
  second := wellFormed_shanghaiContents
  counted := ⟨by decide, by decide, by decide, by decide, by decide, by decide⟩
  counted' := ⟨by decide, by decide, by decide, by decide, by decide, by decide⟩

theorem room_shanghai : shanghai.Room usualMemory :=
  ⟨room_emptyContents, room_shanghaiContents⟩

/-- A file whose first block says nothing loses its transitions. -/
theorem version3_loses_transitions : shanghai.WellFormed ∧ shanghai.Room usualMemory ∧
    zoneOf (readTimeZoneFile usualMemory (some (shanghai.encode version3)) {}) =
      .ok (some ([⟨0, false, 0⟩], [])) ∧
    zoneOf (readTimeZoneFile usualMemory (some (shanghai.encode version2)) {}) =
      .ok (some ([⟨29143, false, 0⟩, ⟨28800, false, 4⟩], [⟨-2177481943, -2177453143, 1⟩])) ∧
    ¬ shanghai.KeptByVersion3 usualMemory := by
  have hskip : shanghai.first.Skippable := ⟨by decide, by decide⟩
  have hversion3 := congrArg zoneOf ((read_version3_iff wellFormed_shanghai).mpr
    (.inr ⟨rfl, room_shanghai.first, rfl⟩))
  have hversion2 := congrArg zoneOf ((read_version2_iff wellFormed_shanghai).mpr
    ⟨hskip, .inr ⟨rfl, ⟨by decide, room_shanghai.second⟩, rfl⟩⟩)
  refine ⟨wellFormed_shanghai, room_shanghai, hversion3, hversion2, ?_⟩
  rintro ⟨zone, hzone, hzone'⟩
  cases (hversion3.symm.trans hzone).trans (hzone'.symm.trans hversion2)

/-- A file with two blocks that say the same. -/
def utc : Version2 where
  reserved := unused
  first := emptyContents
  version := version2
  reserved' := unused
  second := emptyContents
  footer := [10, 10]

theorem keptByVersion3_iff_utc : utc.KeptByVersion3 usualMemory := by
  have wf : emptyContents.WellFormed 8 :=
    ⟨by decide, by decide, by decide, by decide, by decide, .inl rfl, .inl rfl⟩
  have hcounted : emptyContents.Counted :=
    ⟨by decide, by decide, by decide, by decide, by decide, by decide⟩
  have hroom : utc.Room usualMemory :=
    ⟨room_emptyContents, by decide, by decide, by decide, by decide⟩
  exact (keptByVersion3_iff ⟨wellFormed_emptyContents, wf, hcounted, hcounted⟩).mpr
    ⟨⟨by decide, by decide⟩, .inr ⟨rfl, rfl, rfl, rfl⟩, fun _ => hroom⟩

end Version2

end Format

end TimeZone

end Dxian
