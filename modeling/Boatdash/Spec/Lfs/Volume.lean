import Boatdash.Lib.Prog
import Boatdash.Spec.Lfs.Alloc
import Boatdash.Spec.Lfs.Util

/-!
# A mounted volume with an open file

The bytes of the blocks with what the caches hold on top of them, the lookahead of the allocator,
and one open file. What the device does on a call is an argument, by the kind and the number of the
call: any call may fail, with any error. A program, an erase or a flush that fails with
`LFS_ERR_CORRUPT` is a bad block, which the code above goes on from; the bytes it was to write are
anything then.

So is what the code for the directories does on its way (`DirStep`): it writes their blocks, takes
new ones from the allocator and gives others up, in any order.

What was programmed is in the file's cache until a flush, and after that the device may have it in
a cache of its own until a sync. A block is `unflushed` or `unsynced` as long as any of its bytes
may be there; after a power loss there may be anything in it.

A loop that goes on until a good block is found has a number of rounds. It ends in `endless` when
it needs more of them, which is not to happen: there are only so many blocks to try.
-/

namespace Boatdash.Lfs

open Prog

/-- `LFS_ERR_CORRUPT`. -/
def errCorrupt : ℤ := -84

/-- `LFS_ERR_NOSPC`. -/
def errNoSpc : ℤ := -28

/-- `LFS_ERR_FBIG`. -/
def errFbig : ℤ := -27

/-- `LFS_ERR_INVAL`. -/
def errInval : ℤ := -22

/-- `LFS_BLOCK_NULL`. -/
def blockNull : UInt32 := 0xffffffff

/-- `LFS_BLOCK_INLINE`. -/
def blockInline : UInt32 := 0xfffffffe

/-- The calls: those of the device, and those of the code for the directories. -/
inductive Op
  | read
  | prog
  | erase
  | flush
  | sync
  | dir

/-- A call that writes a block, which may be a bad one. -/
def Op.writes : Op → Bool
  | .prog | .erase | .flush => true
  | .read | .sync | .dir => false

/-- What the code for the directories does: it writes one of their blocks, takes a new one or gives
one up. After `land` what it commits is there, even if the commit fails later. -/
inductive DirStep
  | write (block : UInt32) (bytes : ℕ → UInt8)
  | take
  | free (block : UInt32)
  | land

/-- What the calls do, by number: the result, the bytes an erase or a failed call leaves, whether
the file's cache has a place of its block at hand, and the steps of a commit. -/
structure Env where
  result : Op → ℕ → ℤ
  junk : ℕ → ℕ → UInt8
  cached : ℕ → UInt32 → Bool
  steps : ℕ → List DirStep

/-- The lookahead. `found` is not in the code: it has the blocks that the scans marked, and those
handed out, since the lookahead was dropped. -/
structure Lookout extends Lookahead where
  found : Finset UInt32 := ∅

/-- A change of the lookahead. -/
def Lookout.map (g : Lookahead → Lookahead) (la : Lookout) : Lookout :=
  { la with toLookahead := g la.toLookahead }

/-- `struct lfs_file`, its flags apart by name: `LFS_F_WRITING`, `LFS_F_READING`, `LFS_F_DIRTY`,
`LFS_F_ERRED`, `LFS_F_INLINE` and `LFS_O_APPEND`. `head` and `size` are `ctz`; `cache` is the
buffer of an inline file. -/
structure File where
  head : UInt32 := blockNull
  size : UInt32 := 0
  pos : UInt32 := 0
  block : UInt32 := 0
  off : UInt32 := 0
  writing : Bool := false
  reading : Bool := false
  dirty : Bool := false
  erred : Bool := false
  inlined : Bool := false
  append : Bool := false
  cache : ℕ → UInt8 := fun _ => 0

/-- The file in its directory: `LFS_TYPE_INLINESTRUCT` or `LFS_TYPE_CTZSTRUCT`. -/
inductive Entry
  | inlineStruct (data : List UInt8)
  | ctzStruct (head size : UInt32)

/-- The limits on files that `lfs_init` and the superblock set. -/
structure Limits (c : Config) where
  fileMax : UInt32
  inlineMax : UInt32
  file_max : fileMax ≤ 0x7fffffff
  inline_cache : inlineMax ≤ c.cacheSize
  inline_block : inlineMax ≤ c.blockSize / 8

/-- The volume. `tree` are the blocks of all other files and `dirs` those of the directories,
`entry` is the committed version of the open file. `file` is the open file, `orig` the handle by
which `lfs_file_flush` reads its old version.

The volume is `lost` once a traversal has met the open file between the start of a new block and
its first byte: it takes the block for the one before, and may leave blocks of the file out. -/
structure Volume (c : Config) where
  mem : UInt32 → ℕ → UInt8
  env : Env
  lim : Limits c
  la : Lookout
  calls : ℕ := 0
  tree : List UInt32 := []
  dirs : List UInt32 := []
  entry : Entry := .inlineStruct []
  file : File := {}
  orig : File := {}
  unflushed : List UInt32 := []
  unsynced : List UInt32 := []
  lost : Bool := false

/-- How code ends that does not return a result. -/
inductive Stop
  | err (code : ℤ)
  | endless
deriving DecidableEq

/-- Code that runs on a volume. -/
abbrev Code (c : Config) (α : Type) := Prog (fun v : Volume c => v.lost = true) Stop α

variable {c : Config}

/-- The bytes of a block from `off` on. -/
def bytesAt (mem : UInt32 → ℕ → UInt8) (b : UInt32) (off n : ℕ) : List UInt8 :=
  (List.range n).map fun i => mem b (off + i)

/-- The number stored at a place. -/
def wordAt (mem : UInt32 → ℕ → UInt8) (b : UInt32) (off : ℕ) : UInt32 :=
  fromLe32 (bytesAt mem b off 4)

/-- The bytes `data` at `off` of the block `b`. -/
def setBytes (mem : UInt32 → ℕ → UInt8) (b : UInt32) (off : ℕ) (data : List UInt8) :
    UInt32 → ℕ → UInt8 :=
  fun b' i => if b' = b ∧ off ≤ i then (data[i - off]?).getD (mem b i) else mem b' i

/-- Anything at `off` of the block `b` and after it. -/
def spoil (mem : UInt32 → ℕ → UInt8) (b : UInt32) (off : ℕ) (junk : ℕ → UInt8) :
    UInt32 → ℕ → UInt8 :=
  fun b' i => if b' = b ∧ off ≤ i then junk i else mem b' i

/-- A change of the bytes of a block. -/
def setMem (b : UInt32) (g : (UInt32 → ℕ → UInt8) → UInt32 → ℕ → UInt8) : Code c Unit :=
  update (fun v => { v with mem := g v.mem, unflushed := b :: v.unflushed }) fun _ h => h

/-- A change of the lookahead. -/
def setLa (g : Lookout → Lookout) : Code c Unit :=
  update (fun v => { v with la := g v.la }) fun _ h => h

/-- A change of the open file. -/
def setFile (g : File → File) : Code c Unit :=
  update (fun v => { v with file := g v.file }) fun _ h => h

/-- The volume is lost, if `on`. -/
def stray (on : Bool) : Code c Unit :=
  update (fun v => { v with lost := v.lost || on }) fun _ h => by simp [h]

/-- The next call: its result, and the bytes it may leave. -/
def call (op : Op) : Code c (ℤ × (ℕ → UInt8)) := do
  let v ← look
  update (fun v => { v with calls := v.calls + 1 }) fun _ h => h
  return (v.env.result op v.calls, v.env.junk v.calls)

/-- `lfs_bd_read`. -/
def bdRead (b off : UInt32) (n : ℕ) : Code c (List UInt8) :=
  if c.blockSize.toNat < off.toNat + n ∨ c.blockCount ≤ b then fail (.err errCorrupt)
  else do
    let (err, _) ← call .read
    if err ≠ 0 then fail (.err err)
    else do
      let v ← look
      return bytesAt v.mem b off.toNat n

/-- `lfs_bd_read` of a number. -/
def bdRead32 (b off : UInt32) : Code c UInt32 := do
  let data ← bdRead b off 4
  return fromLe32 data

/-- `lfs_bd_prog`, which ends in `false` on a bad block. -/
def bdProg (b off : UInt32) (data : List UInt8) : Code c Bool := do
  let (err, junk) ← call .prog
  if err = 0 then do
    setMem b fun mem => setBytes mem b off.toNat data
    return true
  else do
    setMem b fun mem => spoil mem b off.toNat junk
    if err = errCorrupt then return false else fail (.err err)

/-- `lfs_bd_erase`, which ends in `false` on a bad block. -/
def bdErase (b : UInt32) : Code c Bool := do
  let (err, junk) ← call .erase
  setMem b fun mem => spoil mem b 0 junk
  if err = 0 then return true
  else if err = errCorrupt then return false
  else fail (.err err)

/-- The file's cache is written to the device. -/
def setFlushed : Code c Unit :=
  update (fun v => { v with unflushed := [], unsynced := v.unflushed ++ v.unsynced }) fun _ h => h

/-- The device has written what it had. -/
def setSynced : Code c Unit := update (fun v => { v with unsynced := [] }) fun _ h => h

/-- `lfs_bd_flush` of the file's cache, which ends in `false` on a bad block: what the cache holds
stays there. -/
def bdFlush : Code c Bool := do
  let (err, _) ← call .flush
  if err = 0 then do
    setFlushed
    return true
  else if err = errCorrupt then return false
  else fail (.err err)

/-- `lfs_bd_sync`. -/
def bdSync : Code c Unit := do
  let (err, _) ← call .sync
  if err = 0 then setSynced else fail (.err err)

/-- A call of the code for the directories, of which only the result counts. -/
def dirCall : Code c Unit := do
  let (err, _) ← call .dir
  if err = 0 then return () else fail (.err err)

end Boatdash.Lfs
