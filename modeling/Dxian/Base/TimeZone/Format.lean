import Dxian.Base.TimeZone.ZoneFile

/-!
# The TZif format

The files that RFC 8536 describes: a header with the counters of a data block and the block,
and from version 2 on a second header and a block with times of 64 bits, then a footer.

## Main definitions

- `Contents`, `Contents.WellFormed` — what a data block says
- `Contents.SumsFit`, `Contents.Room` — what the reader needs to compute and to keep it
- `Version1`, `Version2` — the two kinds of files, with their encodings
-/

namespace Dxian

namespace TimeZone

namespace Format

open BigEndian

/-- A local time type record. -/
structure TypeRecord where
  utoff : ℤ
  isdst : Bool
  idx : UInt8
deriving DecidableEq

/-- What a data block says: the transition times and types, the local time type records, the
designations, the leap-second records, and the two kinds of indicators. -/
structure Contents where
  transitions : List (ℤ × UInt8)
  types : List TypeRecord
  designations : List UInt8
  leaps : List (ℤ × ℤ)
  std : List UInt8
  ut : List UInt8

def TypeRecord.encode (r : TypeRecord) : List UInt8 :=
  BigEndian.encode 4 r.utoff ++ [if r.isdst then 1 else 0, r.idx]

namespace Contents

/-- The counters of the header. -/
def header (c : Contents) : List UInt8 :=
  encode 4 c.ut.length ++ (encode 4 c.std.length ++ (encode 4 c.leaps.length ++
    (encode 4 c.transitions.length ++ (encode 4 c.types.length ++
      encode 4 c.designations.length))))

/-- The arrays up to the designations. -/
def tables (c : Contents) (timeSize : ℕ) : List UInt8 :=
  c.transitions.flatMap (fun p => encode timeSize p.1) ++
    (c.transitions.map (·.2) ++ c.types.flatMap TypeRecord.encode)

/-- The data block. -/
def block (c : Contents) (timeSize : ℕ) : List UInt8 :=
  c.tables timeSize ++ (c.designations ++
    (c.leaps.flatMap (fun p => encode timeSize p.1 ++ encode 4 p.2) ++ (c.std ++ c.ut)))

/-- The counters have four bytes each. -/
structure Counted (c : Contents) : Prop where
  ut : c.ut.length < 2 ^ 31
  std : c.std.length < 2 ^ 31
  leaps : c.leaps.length < 2 ^ 31
  transitions : c.transitions.length < 2 ^ 31
  types : c.types.length < 2 ^ 31
  designations : c.designations.length < 2 ^ 31

/-- The requirements on a data block. -/
structure WellFormed (c : Contents) (timeSize : ℕ) : Prop where
  types : c.types ≠ []
  designations : c.designations ≠ []
  times : ∀ p ∈ c.transitions, Fits timeSize p.1
  indices : ∀ p ∈ c.transitions, p.2.toNat < c.types.length
  offsets : ∀ r ∈ c.types, Fits 4 r.utoff
  std : c.std = [] ∨ c.std.length = c.types.length
  ut : c.ut = [] ∨ c.ut.length = c.types.length

/-- The local time types. -/
def localtimes (c : Contents) : List LocalTime :=
  c.types.map fun r => ⟨r.utoff, r.isdst, r.idx.toNat⟩

/-- The offset of a local time type. -/
def offset (c : Contents) (idx : UInt8) : ℤ := (c.types[idx.toNat]?.map (·.utoff)).getD 0

/-- The local times of the transitions are `int64_t`s. -/
@[reducible] def SumsFit (c : Contents) : Prop :=
  ∀ p ∈ c.transitions, CInt.InRange64 (p.1 + c.offset p.2)

/-- The data of a zone with these contents. -/
def data (c : Contents) (footer : List UInt8) : Data where
  transitions := c.transitions.map fun p => ⟨p.1, p.1 + c.offset p.2, p.2.toNat⟩
  localtimes := c.localtimes
  abbreviation := c.designations
  tzstring := footer

/-- There is room for the data of a zone. -/
structure Room (c : Contents) (footer : List UInt8) (mem : Memory) : Prop where
  transitions : c.transitions.length * 24 ≤ mem.heap
  types : c.types.length * 12 ≤ mem.heap
  designations : c.designations.length ≤ mem.stack ∧ c.designations.length ≤ mem.heap
  footer : footer.length ≤ mem.heap

end Contents

/-- The unused bytes of a header. -/
def Reserved := { l : List UInt8 // l.length = 15 }

def header (version : UInt8) (reserved : Reserved) (c : Contents) : List UInt8 :=
  magic ++ ([version] ++ (reserved.1 ++ c.header))

/-- A file of version 1. -/
structure Version1 where
  reserved : Reserved
  contents : Contents

/-- A file of version 2 or later. -/
structure Version2 where
  reserved : Reserved
  first : Contents
  version : UInt8
  reserved' : Reserved
  second : Contents
  footer : List UInt8

def Version1.encode (file : Version1) : List UInt8 :=
  header 0 file.reserved file.contents ++ file.contents.block 4

/-- The bytes of the file, with a version byte in its first header. -/
def Version2.encode (file : Version2) (version : UInt8) : List UInt8 :=
  header version file.reserved file.first ++ (file.first.block 4 ++
    (header file.version file.reserved' file.second ++ (file.second.block 8 ++ file.footer)))

end Format

end TimeZone

end Dxian
