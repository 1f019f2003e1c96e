import Mathlib.Data.UInt

/-!
# The file system's configuration

The sizes littlefs is mounted with. A `Config` carries what `lfs_init` asserts of them, so that
every function below has it at hand.
-/

namespace Boatdash.Lfs

/-- `struct lfs_config`, as far as it is used, with the block count of the mounted file system. -/
structure Config where
  readSize : UInt32
  progSize : UInt32
  blockSize : UInt32
  blockCount : UInt32
  cacheSize : UInt32
  lookaheadSize : UInt32
  read_pos : readSize ≠ 0
  prog_pos : progSize ≠ 0
  cache_pos : cacheSize ≠ 0
  cache_read : cacheSize % readSize = 0
  cache_prog : cacheSize % progSize = 0
  block_cache : blockSize % cacheSize = 0
  block_large : 128 ≤ blockSize
  lookahead_pos : 0 < lookaheadSize
  -- not asserted: the device has blocks, and so few that sums of two numbers of blocks and the
  -- number of lookahead bits fit into 32 bits
  count_pos : 0 < blockCount
  count_small : blockCount ≤ 0x80000000
  lookahead_small : lookaheadSize < 0x20000000

variable (c : Config)

/-- The number of blocks. -/
def Config.count : ℕ := c.blockCount.toNat

theorem Config.count_gt : 0 < c.count := UInt32.lt_iff_toNat_lt.1 c.count_pos

theorem Config.count_le : c.count ≤ 2 ^ 31 := UInt32.le_iff_toNat_le.1 c.count_small

/-- A sum that does not overflow. -/
theorem toNat_add_of_lt {a b : UInt32} (h : a.toNat + b.toNat < 2 ^ 32) :
    (a + b).toNat = a.toNat + b.toNat := by
  rw [UInt32.toNat_add, Nat.mod_eq_of_lt h]

/-- A product that does not overflow. -/
theorem toNat_mul_of_lt {a b : UInt32} (h : a.toNat * b.toNat < 2 ^ 32) :
    (a * b).toNat = a.toNat * b.toNat := by
  rw [UInt32.toNat_mul, Nat.mod_eq_of_lt h]

end Boatdash.Lfs
