import Dxian.Base.DateTime
import Dxian.Lib.BinarySearch

/-!
# Time zones

The data of a time zone are its transitions: the seconds at which another local time
type begins to apply. `findLocalTime` looks the type up, for a second of UTC or for a
local time. A local time may be shown twice or be skipped; the caller then chooses with
`postTransition`. Sums of type `int64_t` may overflow.

## Main definitions

- `TimeZone.Data`, `findLocalTime`, `findLocalTimeOf` — as in the source
- `TimeZone.toLocalTime`, `TimeZone.fromLocalTime` — the public functions
-/

namespace Dxian

namespace TimeZone

/-- `struct TimeZone::Data::Transition`. -/
structure Transition where
  utctime : ℤ
  localtime : ℤ
  localtimeIdx : ℕ
deriving DecidableEq

/-- `struct TimeZone::Data::LocalTime`. -/
structure LocalTime where
  utcOffset : ℤ
  isDst : Bool
  desigIdx : ℕ
deriving DecidableEq

/-- `struct TimeZone::Data`. -/
structure Data where
  transitions : List Transition := []
  localtimes : List LocalTime := []
  abbreviation : List UInt8 := []
  tzstring : List UInt8 := []
deriving DecidableEq

namespace Data

/-- `Data::addLocalTime`. -/
def addLocalTime (data : Data) (utcOffset : ℤ) (isDst : Bool) (desigIdx : ℕ) : Data :=
  { data with localtimes := data.localtimes ++ [⟨utcOffset, isDst, desigIdx⟩] }

/-- `Data::findLocalTime(int64_t)`. -/
def findLocalTime (data : Data) (utcTime : ℤ) : Except Fault LocalTime := do
  if data.transitions.head?.all (fun front => utcTime < front.utctime) then
    index data.localtimes 0
  else
    let transI := BinarySearch.upperBound (fun trans => utcTime < trans.utctime) data.transitions
    check (transI != 0)
    if transI ≠ data.transitions.length then
      let trans ← index data.transitions (transI - 1)
      index data.localtimes trans.localtimeIdx
    else
      let back ← index data.transitions (data.transitions.length - 1)
      index data.localtimes back.localtimeIdx

/-- `transI->utctime - 1 + localtimes[prior_trans.localtimeIdx].utcOffset`. -/
def priorSecondOf (trans : Transition) (prior : LocalTime) : Except Fault ℤ := do
  let lastSecond ← CInt.get64 .overflow (trans.utctime - 1)
  CInt.get64 .overflow (lastSecond + prior.utcOffset)

/-- `Data::findLocalTime(const DateTime&, bool)`. -/
def findLocalTimeOf (data : Data) (lt : DateTime) (postTransition : Bool) :
    Except Fault LocalTime := do
  let localtime ← fromUtcTime lt
  if data.transitions.head?.all (fun front => localtime < front.localtime) then
    index data.localtimes 0
  else
    let transI :=
      BinarySearch.upperBound (fun trans => localtime < trans.localtime) data.transitions
    check (transI != 0)
    if transI = data.transitions.length then
      let back ← index data.transitions (data.transitions.length - 1)
      index data.localtimes back.localtimeIdx
    else
      let priorTrans ← index data.transitions (transI - 1)
      let trans ← index data.transitions transI
      let prior ← index data.localtimes priorTrans.localtimeIdx
      let priorSecond ← priorSecondOf trans prior
      if priorSecond < localtime then
        -- a skip
        if postTransition then index data.localtimes trans.localtimeIdx
        else index data.localtimes priorTrans.localtimeIdx
      else
        let transI := transI - 1
        let trans := priorTrans
        let (priorTrans, priorSecond) ←
          if transI ≠ 0 then do
            let priorTrans ← index data.transitions (transI - 1)
            let prior ← index data.localtimes priorTrans.localtimeIdx
            let priorSecond ← priorSecondOf trans prior
            pure (priorTrans, priorSecond)
          else pure (priorTrans, priorSecond)
        if localtime ≤ priorSecond then
          -- a repeat
          if postTransition then index data.localtimes trans.localtimeIdx
          else index data.localtimes priorTrans.localtimeIdx
        else index data.localtimes trans.localtimeIdx

end Data

end TimeZone

/-- `class TimeZone`. -/
structure TimeZone where
  data : Option TimeZone.Data := none

namespace TimeZone

/-- The fixed time zone `TimeZone(int eastOfUtc, const char* name)`. -/
def fixed (eastOfUtc : ℤ) (name : List UInt8) : TimeZone :=
  ⟨some { ({} : Data).addLocalTime eastOfUtc false 0 with abbreviation := name }⟩

/-- `assert(data_ != NULL)`. -/
def getData (zone : TimeZone) : Except Fault Data :=
  match zone.data with
  | some data => .ok data
  | none => .error .assertion

/-- `TimeZone::toLocalTime`: the local time and `*utcOffset`. -/
def toLocalTime (zone : TimeZone) (seconds : ℤ) : Except Fault (DateTime × ℤ) := do
  let data ← zone.getData
  let type ← data.findLocalTime seconds
  let localSeconds ← CInt.get64 .overflow (seconds + type.utcOffset)
  let localTime ← breakTime localSeconds
  return (localTime, type.utcOffset)

/-- `TimeZone::fromLocalTime`. -/
def fromLocalTime (zone : TimeZone) (localtime : DateTime) (postTransition : Bool) :
    Except Fault ℤ := do
  let data ← zone.getData
  let type ← data.findLocalTimeOf localtime postTransition
  let localSeconds ← fromUtcTime localtime
  -- the seconds of a `Date` are far from the ends of `int64_t`
  return localSeconds - type.utcOffset

end TimeZone

end Dxian
