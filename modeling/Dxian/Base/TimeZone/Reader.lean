import Dxian.Base.TimeZone.File
import Dxian.Base.TimeZone.LocalTime
import Dxian.Lib.CInt

/-!
# Reading a time zone

`readTimeZoneFile` reads the data block of a zone file: the second one, with times of 64
bits, of a file of version 2, and the only one that it looks for in any other file.

## Main definitions

- `readDataBlock`, `readTimeZoneFile`, `loadZoneFile` — as in the source
-/

namespace Dxian

namespace TimeZone

open Reader

namespace Data

/-- `Data::addTransition`; a `Transition` has 24 bytes. -/
def addTransition (mem : Memory) (data : Data) (utcTime : ℤ) (localtimeIdx : ℕ) :
    Except Thrown Data :=
  match data.localtimes[localtimeIdx]? with
  | some lt => do
    let localtime ← CInt.get64 (.fault .overflow) (utcTime + lt.utcOffset)
    let transitions := data.transitions ++ [⟨utcTime, localtime, localtimeIdx⟩]
    mem.allocate (transitions.length * 24)
    return { data with transitions := transitions }
  | none => .error .outOfRange

/-- The loop that adds the transitions. -/
def addTransitions (mem : Memory) (data : Data) : List (ℤ × ℕ) → Except Thrown Data
  | [] => .ok data
  | (utcTime, localtimeIdx) :: rest => do
    let data ← data.addTransition mem utcTime localtimeIdx
    addTransitions mem data rest

/-- The loop that adds the local time types. -/
def addLocalTimes (data : Data) (types : List LocalTime) : Data :=
  types.foldl (fun data type => data.addLocalTime type.utcOffset type.isDst type.desigIdx) data

end Data

/-- The counters at the start of a data block. -/
structure Counters where
  isutccnt : ℤ
  isstdcnt : ℤ
  leapcnt : ℤ
  timecnt : ℤ
  typecnt : ℤ
  charcnt : ℤ
deriving DecidableEq

def readCounters : Reader Thrown Counters := do
  let isutccnt ← File.readInt32
  let isstdcnt ← File.readInt32
  let leapcnt ← File.readInt32
  let timecnt ← File.readInt32
  let typecnt ← File.readInt32
  let charcnt ← File.readInt32
  return ⟨isutccnt, isstdcnt, leapcnt, timecnt, typecnt, charcnt⟩

/-- `std::vector::reserve`; as a `size_t` a negative number is too large. -/
def reserve (mem : Memory) (size : ℕ) (n : ℤ) : Reader Thrown Unit :=
  if 0 ≤ n then mem.allocate (n.toNat * size) else throw .lengthError

def timeSize (v1 : Bool) : ℕ := if v1 then 4 else 8

def readTime (v1 : Bool) : Reader Thrown ℤ := if v1 then File.readInt32 else File.readInt64

def readLocalTime : Reader Thrown LocalTime := do
  let gmtoff ← File.readInt32
  let isdst ← File.readUInt8
  let abbrind ← File.readUInt8
  return ⟨gmtoff, isdst != 0, abbrind⟩

/-- The arrays of a data block. -/
structure Tables where
  trans : List ℤ
  localtimes : List ℕ
  types : List LocalTime

/-- The three loops of `readDataBlock` that read. The vectors are of `int64_t`, of `int`, and of
`LocalTime`, which has 12 bytes. -/
def readTables (mem : Memory) (v1 : Bool) (timecnt typecnt : ℤ) : Reader Thrown Tables := do
  -- the loops count from zero, so a negative counter has to fail here
  reserve mem 8 timecnt
  let trans ← repeatM (readTime v1) timecnt.toNat
  reserve mem 4 timecnt
  let localtimes ← repeatM File.readUInt8 timecnt.toNat
  reserve mem 12 typecnt
  let types ← repeatM readLocalTime typecnt.toNat
  return ⟨trans, localtimes, types⟩

/-- The end of `readDataBlock`. -/
def readTail (mem : Memory) (data : Data) (v1 : Bool) (cnt : Counters) :
    Reader Thrown (Option Data) := do
  let abbreviation ← File.readBytes mem cnt.charcnt
  let data := { data with abbreviation := abbreviation }
  -- no leap seconds: `leapcnt` is zero by now
  File.skip (cnt.leapcnt * (timeSize v1 + 4))
  File.skip cnt.isstdcnt
  File.skip cnt.isutccnt
  if v1 then
    return some data
  else
    -- the whole rest, not only the next line
    let tzstring ← File.readToEnd mem
    return some { data with tzstring := tzstring }

/-- `readDataBlock`; `none` stands for `false`. -/
def readDataBlock (mem : Memory) (data : Data) (v1 : Bool) : Reader Thrown (Option Data) := do
  let cnt ← readCounters
  if cnt.leapcnt ≠ 0 then
    return none
  else if cnt.isutccnt ≠ 0 ∧ cnt.isutccnt ≠ cnt.typecnt then
    return none
  else if cnt.isstdcnt ≠ 0 ∧ cnt.isstdcnt ≠ cnt.typecnt then
    return none
  else
    let tables ← readTables mem v1 cnt.timecnt cnt.typecnt
    let data := data.addLocalTimes tables.types
    let data ← data.addTransitions mem (tables.trans.zip tables.localtimes)
    readTail mem data v1 cnt

/-- `"TZif"`. -/
def magic : List UInt8 := [0x54, 0x5a, 0x69, 0x66]

/-- The version byte `'2'`. -/
def version2 : UInt8 := 0x32

/-- The `size_t` of the first data block, as the `ssize_t` that `File::skip` takes. Two of the
products are of type `int`. -/
def Counters.blockSize (cnt : Counters) : Except Thrown ℤ := do
  let types ← ((6 : CInt) * (cnt.typecnt : CInt)).get (.fault .overflow)
  let leaps ← ((8 : CInt) * (cnt.leapcnt : CInt)).get (.fault .overflow)
  return (4 * cnt.timecnt + cnt.timecnt + types + cnt.charcnt + leaps + cnt.isstdcnt
    + cnt.isutccnt).bmod (2 ^ 64)

/-- What `readTimeZoneFile` does behind the first header. -/
def readBlocks (mem : Memory) (data : Data) (version : List UInt8) (cnt : Counters) :
    Reader Thrown (Option Data) := do
  if version = [version2] then
    let skip ← cnt.blockSize
    File.skip skip
    let head ← File.readBytes mem 4
    if head ≠ magic then
      throw (.logicError "bad head")
    else
      File.skip 16
      readDataBlock mem data false
  else
    -- any other version, also a later one: rewind to the counters
    File.skip (-4 * 6)
    readDataBlock mem data true

/-- The block under `try` of `readTimeZoneFile`. -/
def readZone (mem : Memory) (data : Data) : Reader Thrown (Option Data) := do
  let head ← File.readBytes mem 4
  if head ≠ magic then
    throw (.logicError "bad head")
  else
    let version ← File.readBytes mem 1
    let _ ← File.readBytes mem 15
    let cnt ← readCounters
    readBlocks mem data version cnt

/-- `catch (std::logic_error& e)`, behind which `readTimeZoneFile` returns `false`. -/
def catchLogicError (x : Reader Thrown (Option Data)) (f : ByteFile) :
    Except Fault (Option Data) :=
  match x f with
  | .ok (result, _) => .ok result
  | .error (.fault fault) => .error fault
  | .error _ => .ok none

/-- `readTimeZoneFile`; `zonefile` are the bytes of the file, if it can be opened. -/
def readTimeZoneFile (mem : Memory) (zonefile : Option (List UInt8)) (data : Data) :
    Except Fault (Option Data) :=
  match zonefile with
  | some bytes => catchLogicError (readZone mem data) ⟨bytes, 0⟩
  | none => .ok none

/-- `TimeZone::loadZoneFile`. -/
def loadZoneFile (mem : Memory) (zonefile : Option (List UInt8)) : Except Fault TimeZone := do
  let data ← readTimeZoneFile mem zonefile {}
  return ⟨data⟩

end TimeZone

end Dxian
