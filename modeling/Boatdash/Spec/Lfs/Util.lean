import Mathlib.Data.UInt

/-!
# `lfs_util.h` and `lfs_util.c`

The checksum with its table of sixteen words, numbers as the bytes they are stored in, and the bit
functions, which are the compiler's.
-/

namespace Boatdash.Lfs

/-- The table of `lfs_crc`. -/
def rtable : List UInt32 :=
  [0x00000000, 0x1db71064, 0x3b6e20c8, 0x26d930ac,
   0x76dc4190, 0x6b6b51f4, 0x4db26158, 0x5005713c,
   0xedb88320, 0xf00f9344, 0xd6d6a3e8, 0xcb61b38c,
   0x9b64c2b0, 0x86d3d2d4, 0xa00ae278, 0xbdbdf21c]

/-- Half a byte of `lfs_crc`: four bits of `d`. -/
def crcHalf (crc d : UInt32) : UInt32 :=
  crc >>> 4 ^^^ rtable.getD ((crc ^^^ d) &&& 0xf).toNat 0

/-- The body of the loop of `lfs_crc`. -/
def crcByte (crc : UInt32) (b : UInt8) : UInt32 :=
  crcHalf (crcHalf crc b.toUInt32) (b.toUInt32 >>> 4)

/-- `lfs_crc`. -/
def crc (s : UInt32) (data : List UInt8) : UInt32 := data.foldl crcByte s

/-- A number as it is stored after `lfs_tole32`: the low byte first. -/
def le32 (a : UInt32) : List UInt8 :=
  [a.toUInt8, (a >>> 8).toUInt8, (a >>> 16).toUInt8, (a >>> 24).toUInt8]

/-- The number of four bytes, as `lfs_fromle32` reads it. -/
def fromLe32 : List UInt8 → UInt32
  | [b0, b1, b2, b3] =>
    b0.toUInt32 ||| b1.toUInt32 <<< 8 ||| b2.toUInt32 <<< 16 ||| b3.toUInt32 <<< 24
  | _ => 0

/-- `lfs_npw2`, by `__builtin_clz`. -/
def npw2 (a : UInt32) : UInt32 := 32 - .ofBitVec (a - 1).toBitVec.clz

/-- `lfs_ctz`, by `__builtin_ctz`. -/
def ctz (a : UInt32) : UInt32 := .ofBitVec a.toBitVec.ctz

/-- `lfs_popc`, by `__builtin_popcount`. -/
def popc (a : UInt32) : UInt32 := .ofBitVec a.toBitVec.cpop

end Boatdash.Lfs
