import Mathlib.Data.Finset.Basic
import Boatdash.Lib.Bitmap
import Boatdash.Lib.Machine
import Boatdash.Spec.Lfs.Config

/-!
# The block allocator

`lfs_alloc` and what it calls. No list of free blocks is kept on the disk: the lookahead buffer
is a bitmap of a window of blocks, filled by a traversal of everything in use, and `ckpoint` counts
the blocks that may still be looked at before the allocator gives up.

A traversal's result is an argument, one for each scan of a call. `allocMachine` has the
allocator's calls and the changes of what is in use around them, in any order.
-/

namespace Boatdash.Lfs

/-- `struct lfs_lookahead`. -/
structure Lookahead where
  start : UInt32
  size : UInt32
  next : UInt32
  ckpoint : UInt32
  buffer : List UInt8

/-- What `lfs_fs_traverse_` does: the blocks its callback gets, and its result. -/
structure Traversal where
  visited : List UInt32
  err : ℤ := 0

variable (c : Config)

/-- `lfs_alloc_ckpoint`. -/
def allocCkpoint (la : Lookahead) : Lookahead := { la with ckpoint := c.blockCount }

/-- `lfs_alloc_drop`. -/
def allocDrop (la : Lookahead) : Lookahead := allocCkpoint c { la with size := 0, next := 0 }

/-- The distance of a block from the start of the window. -/
def Lookahead.off (la : Lookahead) (block : UInt32) : UInt32 :=
  (block - la.start + c.blockCount) % c.blockCount

/-- `lfs_alloc_lookahead`. -/
def allocLookahead (la : Lookahead) (block : UInt32) : Lookahead :=
  if la.off c block < la.size then
    { la with buffer := Bitmap.mark la.buffer (la.off c block).toNat }
  else la

/-- The window `lfs_alloc_scan` sets before it traverses. -/
def Lookahead.slide (la : Lookahead) : Lookahead where
  start := (la.start + la.next) % c.blockCount
  next := 0
  size := min (8 * c.lookaheadSize) la.ckpoint
  ckpoint := la.ckpoint
  buffer := List.replicate c.lookaheadSize.toNat 0

/-- `lfs_alloc_scan`. -/
def allocScan (tr : Traversal) (la : Lookahead) : ℤ × Lookahead :=
  let la := tr.visited.foldl (allocLookahead c) (la.slide c)
  if tr.err ≠ 0 then (tr.err, allocDrop c la) else (0, la)

/-- One block further. -/
def Lookahead.advance (la : Lookahead) : Lookahead :=
  { la with next := la.next + 1, ckpoint := la.ckpoint - 1 }

/-- The bit at `next`. -/
def Lookahead.taken (la : Lookahead) : Bool := Bitmap.test la.buffer la.next.toNat

/-- The block at `next`. -/
def Lookahead.block (la : Lookahead) : UInt32 := (la.start + la.next) % c.blockCount

/-- Past the blocks in use, at most `k` of them. -/
def Lookahead.skipUsed : ℕ → Lookahead → Lookahead
  | 0, la => la
  | k + 1, la => if la.next < la.size ∧ la.taken then skipUsed k la.advance else la

/-- Past the blocks in use, to the end of the window at most: the loops over `next`. -/
def Lookahead.skip (la : Lookahead) : Lookahead := la.skipUsed (la.size - la.next).toNat

/-- The result of `lfs_alloc`: a block, `LFS_ERR_NOSPC`, or the error of a traversal; `running`
while more rounds are needed. -/
inductive AllocOut
  | block (b : UInt32)
  | noSpace
  | failed (err : ℤ)
  | running
deriving DecidableEq

/-- `lfs_alloc` with at most `k` scans. -/
def allocLoop (tr : ℕ → Traversal) : ℕ → Lookahead → AllocOut × Lookahead
  | k, la =>
    let la := la.skip
    if la.next < la.size then
      -- found a free block; the next one is found eagerly
      (.block (la.block c), la.advance.skip)
    else if la.ckpoint = 0 then (.noSpace, la)
    else match k with
      | 0 => (.running, la)
      | k + 1 =>
        match allocScan c (tr k) la with
        | (0, la) => allocLoop tr k la
        | (err, la) => (.failed err, la)

/-- `lfs_alloc`: every scan lets it look at one block at least. -/
def alloc (tr : ℕ → Traversal) (la : Lookahead) : AllocOut × Lookahead :=
  allocLoop c tr la.ckpoint.toNat la

/-- The lookahead of an empty device, as `lfs_format_` creates it. -/
def Lookahead.format : Lookahead :=
  allocCkpoint c
    { start := 0, size := min (8 * c.lookaheadSize) c.blockCount, next := 0, ckpoint := 0
      buffer := List.replicate c.lookaheadSize.toNat 0 }

/-! ## The allocator in use -/

/-- The allocator, the blocks in use (those a traversal visits), and the blocks handed out since
the last checkpoint. -/
structure Blocks where
  la : Lookahead
  used : Finset UInt32
  pending : Finset UInt32

/-- A device just formatted. -/
def Blocks.start : Blocks := { la := Lookahead.format c, used := ∅, pending := ∅ }

/-- What happens around the allocator. -/
inductive AllocEvent
  | alloc (tr : ℕ → Traversal)
  /-- no allocation is in flight: what was handed out is in use by now, or given up -/
  | ckpoint
  /-- `lfs_fs_gc_` fills the lookahead buffer -/
  | scan (tr : Traversal)
  /-- a commit: blocks handed out come into use, others are no longer used -/
  | commit (used : Finset UInt32)
  /-- `lfs_format_` sets the allocator up -/
  | format
  /-- a mount, after a power loss or not -/
  | mount (seed : UInt32) (used : Finset UInt32)

def Blocks.step (s : Blocks) : AllocEvent → Blocks
  | .alloc tr =>
    let r := Lfs.alloc c tr s.la
    { s with la := r.2
             pending := match r.1 with
               | .block b => insert b s.pending
               -- the operation fails, with everything that was handed out to it
               | .failed _ => ∅
               | _ => s.pending }
  | .ckpoint => { s with la := allocCkpoint c s.la, pending := ∅ }
  | .scan tr =>
    let r := allocScan c tr s.la
    { s with la := r.2, pending := if r.1 = 0 then s.pending else ∅ }
  | .commit used => { s with used := used }
  | .format => .start c
  | .mount seed used =>
    { la := allocDrop c { s.la with start := seed % c.blockCount }, used := used, pending := ∅ }

def Blocks.out (s : Blocks) : AllocEvent → Option AllocOut
  | .alloc tr => some (Lfs.alloc c tr s.la).1
  | _ => none

/-- The allocator with what it allocates for. -/
def allocMachine : Machine Blocks AllocEvent (Option AllocOut) := ⟨Blocks.step c, Blocks.out c⟩

@[simp] theorem allocMachine_step (s : Blocks) (e : AllocEvent) :
    (allocMachine c).step s e = s.step c e := rfl

/-- A traversal that ends well has visited every block in use. -/
def Traversal.Covers (tr : Traversal) (used : Finset UInt32) : Prop :=
  tr.err = 0 → ∀ b ∈ used, b ∈ tr.visited

/-- What the rest of the file system does: its traversals cover what is in use, and only a block
that was handed out comes into use. -/
def Blocks.ok (s : Blocks) : AllocEvent → Prop
  | .alloc tr => ∀ k, (tr k).Covers s.used
  | .scan tr => tr.Covers s.used
  | .commit used => used ⊆ s.used ∪ s.pending
  | _ => True

end Boatdash.Lfs
