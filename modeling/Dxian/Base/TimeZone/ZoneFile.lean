import Dxian.Base.TimeZone.DataBlock

/-!
# The bytes of a zone file

Which data block `readTimeZoneFile` reads, from the bytes of the file.

## Main results

- `readTimeZoneFile_of_not_header` — what is refused before any block
- `readTimeZoneFile_of_v1`, `readTimeZoneFile_of_v2` — the block that is read
-/

namespace Dxian

namespace TimeZone

open Reader

namespace Counters

/-- The products of type `int` do not overflow. -/
@[reducible] def Fits (cnt : Counters) : Prop :=
  CInt.InRange (6 * cnt.typecnt) ∧ CInt.InRange (8 * cnt.leapcnt)

/-- The distance that is skipped, if they do not. -/
def skipSize (cnt : Counters) : ℤ :=
  (4 * cnt.timecnt + cnt.timecnt + 6 * cnt.typecnt + cnt.charcnt + 8 * cnt.leapcnt + cnt.isstdcnt
    + cnt.isutccnt).bmod (2 ^ 64)

variable {cnt : Counters}

theorem blockSize_of_fits (h : cnt.Fits) : cnt.blockSize = .ok cnt.skipSize := by
  have htypecnt : CInt.InRange cnt.typecnt := by omega
  have hleapcnt : CInt.InRange cnt.leapcnt := by omega
  rw [blockSize, CInt.ofNat_eq, CInt.ofNat_eq, CInt.ofInt_mul (by decide) htypecnt,
    CInt.ofInt_mul (by decide) hleapcnt]
  show ((CInt.ofInt (6 * cnt.typecnt)).get _ >>= _) = _
  rw [CInt.get_ofInt _ h.1]
  show ((CInt.ofInt (8 * cnt.leapcnt)).get _ >>= _) = _
  rw [CInt.get_ofInt _ h.2]
  rfl

theorem blockSize_of_not_fits (h : ¬ cnt.Fits) : cnt.blockSize = .error (.fault .overflow) := by
  rw [blockSize, CInt.ofNat_eq, CInt.ofNat_eq]
  -- the product of `typecnt` is computed first
  by_cases htypecnt : CInt.InRange (6 * cnt.typecnt)
  · rw [CInt.ofInt_mul (by decide) (by omega)]
    show ((CInt.ofInt (6 * cnt.typecnt)).get _ >>= _) = _
    rw [CInt.get_ofInt _ htypecnt]
    show ((CInt.ofInt 8 * _).get _ >>= _) = _
    rw [CInt.ofInt_mul_overflow (by decide) fun hleapcnt => h ⟨htypecnt, hleapcnt⟩]
    rfl
  · show ((CInt.ofInt 6 * _).get _ >>= _) = _
    rw [CInt.ofInt_mul_overflow (by decide) htypecnt]
    rfl

end Counters

/-- The bytes begin with a header. -/
structure HasHeader (bytes : List UInt8) : Prop where
  length : 44 ≤ bytes.length
  magic : bytes.take 4 = magic

/-- The version byte. -/
def versionOf (bytes : List UInt8) : List UInt8 := (bytes.drop 4).take 1

/-- The counters of the first header. -/
def headerCounters (bytes : List UInt8) : Counters := .ofBytes ((bytes.drop 20).take 24)

/-- The position at which the second header is looked for. -/
def secondHeader (bytes : List UInt8) : ℕ :=
  ((⟨bytes, 44⟩ : ByteFile).seekCur (headerCounters bytes).skipSize).pos

variable (mem : Memory)

theorem reads_head : Reads (File.readBytes mem 4) 4 id Thrown.Caught :=
  File.reads_readBytes_of_le mem (by decide)

theorem reads_version : Reads (File.readBytes mem 1) 1 id Thrown.Caught :=
  File.reads_readBytes_of_le mem (by decide)

theorem reads_reserved : Reads (File.readBytes mem 15) 15 id Thrown.Caught :=
  File.reads_readBytes_of_le mem (by decide)

variable {mem} {bytes : List UInt8}

/-- Reading the header. -/
theorem readTimeZoneFile_of_header (h : HasHeader bytes) :
    readTimeZoneFile mem (some bytes) {} = catchLogicError
      (readBlocks mem {} (versionOf bytes) (headerCounters bytes)) ⟨bytes, 44⟩ := by
  -- the reads leave the file at 4, 5, 20 and 44
  have hlength := h.length
  have hhead := (reads_head mem).ok ⟨bytes, 0⟩ (by show 4 ≤ bytes.length; omega)
  have hversion := (reads_version mem).ok ⟨bytes, 4⟩ (by
    show 1 ≤ (bytes.drop 4).length
    rw [List.length_drop]
    omega)
  have hreserved := (reads_reserved mem).ok ⟨bytes, 5⟩ (by
    show 15 ≤ (bytes.drop 5).length
    rw [List.length_drop]
    omega)
  have hcounters := reads_readCounters.ok ⟨bytes, 20⟩ (by
    show 24 ≤ (bytes.drop 20).length
    rw [List.length_drop]
    omega)
  show catchLogicError (readZone mem {}) ⟨bytes, 0⟩ = _
  rw [readZone, catch_bind_ok hhead]
  show catchLogicError (if bytes.take 4 ≠ magic then _ else _) ⟨bytes, 4⟩ = _
  rw [if_neg (not_not_intro h.magic), catch_bind_ok hversion]
  show catchLogicError (File.readBytes mem 15 >>= _) ⟨bytes, 5⟩ = _
  rw [catch_bind_ok hreserved]
  show catchLogicError (readCounters >>= _) ⟨bytes, 20⟩ = _
  rw [catch_bind_ok hcounters]
  rfl

/-- **Version 1**: the block behind the only header. -/
theorem readTimeZoneFile_of_v1 (h : HasHeader bytes) (hversion : versionOf bytes ≠ [version2]) :
    readTimeZoneFile mem (some bytes) {} =
      catchLogicError (readDataBlock mem {} true) ⟨bytes, 20⟩ := by
  rw [readTimeZoneFile_of_header h, readBlocks, if_neg hversion]
  exact catch_bind_ok rfl

section Version2

variable (h : HasHeader bytes) (hversion : versionOf bytes = [version2])
include h hversion

theorem readTimeZoneFile_of_overflow (hfits : ¬ (headerCounters bytes).Fits) :
    readTimeZoneFile mem (some bytes) {} = .error .overflow := by
  rw [readTimeZoneFile_of_header h, readBlocks, if_pos hversion,
    Counters.blockSize_of_not_fits hfits]
  rfl

variable (hfits : (headerCounters bytes).Fits)
include hfits

theorem readBlocks_of_fits : readTimeZoneFile mem (some bytes) {} = catchLogicError
    (File.readBytes mem 4 >>= fun head =>
      if head ≠ magic then throw (.logicError "bad head")
      else File.skip 16 >>= fun _ => readDataBlock mem {} false) ⟨bytes, secondHeader bytes⟩ := by
  have hpos : (⟨bytes, 44⟩ : ByteFile).seekCur (headerCounters bytes).skipSize =
      ⟨bytes, secondHeader bytes⟩ := by
    rw [secondHeader, ByteFile.seekCur]
    split_ifs <;> rfl
  rw [readTimeZoneFile_of_header h, readBlocks, if_pos hversion, Counters.blockSize_of_fits hfits,
    ← hpos]
  rfl

/-- **Version 2**: the block behind the second header. -/
theorem readTimeZoneFile_of_v2 (hmagic : (bytes.drop (secondHeader bytes)).take 4 = magic) :
    readTimeZoneFile mem (some bytes) {} =
      catchLogicError (readDataBlock mem {} false) ⟨bytes, secondHeader bytes + 20⟩ := by
  have hlength : 4 ≤ (⟨bytes, secondHeader bytes⟩ : ByteFile).rest.length := by
    have hlen := congrArg List.length hmagic
    rw [List.length_take] at hlen
    show 4 ≤ (bytes.drop (secondHeader bytes)).length
    have hmagic4 : magic.length = 4 := rfl
    omega
  rw [readBlocks_of_fits h hversion hfits, catch_bind_ok ((reads_head mem).ok _ hlength)]
  show catchLogicError (if (bytes.drop (secondHeader bytes)).take 4 ≠ magic then _ else _) _ = _
  rw [if_neg (not_not_intro hmagic), catch_bind_ok (DataBlock.skip_eq 16 (by decide) _),
    ByteFile.advance_advance]
  rfl

end Version2

end TimeZone

end Dxian
