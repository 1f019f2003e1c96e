import Boatdash.Spec.Lfs.Volume

/-!
# The blocks of a file

`lfs_ctz_find`, `lfs_ctz_traverse` and `lfs_ctz_extend`, with the allocator between them: it finds
free blocks by a traversal of the blocks in use, those of the open file among them.

A file too large to be stored in its directory is a backward list of blocks: block `n` starts with
`lfs_ctz(n) + 1` pointers, to the blocks `n - 1`, `n - 2`, `n - 4` and so on. No block of it is
written again once it is full; a change in the middle makes new blocks from there on.
-/

namespace Boatdash.Lfs

open Prog

/-- `lfs_ctz_index`: the block of a byte of the file, and the place there that `*off` becomes. -/
def ctzIndex (c : Config) (size : UInt32) : UInt32 × UInt32 :=
  let b := c.blockSize - 2 * 4
  let i := size / b
  if i = 0 then (0, size)
  else
    let i := (size - 4 * (popc (i - 1) + 2)) / b
    (i, size - b * i - 4 * popc i)

variable {c : Config}

/-- The loop of `lfs_ctz_find`, for at most `k` rounds. -/
def ctzFindLoop (target : UInt32) : ℕ → UInt32 → UInt32 → Code c UInt32
  | 0, _, head => return head
  | k + 1, current, head =>
    if current ≤ target then return head
    else do
      let skip := min (npw2 (current - target + 1) - 1) (ctz current)
      let head ← bdRead32 head (4 * skip)
      ctzFindLoop target k (current - 1 <<< skip) head

/-- `lfs_ctz_find`: the block with the byte `pos`, and the place there. Every round of the loop
goes back one block at least. -/
def ctzFind (head size pos : UInt32) : Code c (UInt32 × UInt32) :=
  if size = 0 then return (blockNull, 0)
  else do
    let current := (ctzIndex c (size - 1)).1
    let (target, off) := ctzIndex c pos
    let block ← ctzFindLoop target current.toNat current head
    return (block, off)

/-- The loop of `lfs_ctz_traverse`, for at most `k` rounds. -/
def ctzTraverseLoop : ℕ → UInt32 → UInt32 → Code c (List UInt32)
  | 0, _, head => return [head]
  | k + 1, index, head =>
    if index = 0 then return [head]
    else do
      let count := 2 - (index &&& 1)
      let data ← bdRead head 0 (4 * count.toNat)
      let head0 := fromLe32 (data.take 4)
      let head1 := fromLe32 (data.drop 4)
      if count = 1 then
        let rest ← ctzTraverseLoop k (index - count) head0
        return head :: rest
      else
        let rest ← ctzTraverseLoop k (index - count) head1
        return head :: head0 :: rest

/-- `lfs_ctz_traverse`: the blocks the callback gets. -/
def ctzTraverse (head size : UInt32) : Code c (List UInt32) :=
  if size = 0 then return []
  else
    let index := (ctzIndex c (size - 1)).1
    ctzTraverseLoop index.toNat index head

/-! ## New blocks -/

/-- The open file as `lfs_fs_traverse_` takes it, between the start of a new block and its first
byte: the block is not yet that of the byte before `pos`. -/
def File.between (c : Config) (f : File) : Bool :=
  f.writing && !f.inlined && f.pos != 0 && (ctzIndex c (f.pos - 1)).2 + 1 != f.off

/-- The blocks of the committed version. -/
def entryTraverse : Entry → Code c (List UInt32)
  | .inlineStruct _ => return []
  | .ctzStruct head size => ctzTraverse head size

/-- The blocks of the open file, if it has any of its own. -/
def openTraverse (own : Bool) (head size : UInt32) : Code c (List UInt32) :=
  if own then ctzTraverse head size else return []

/-- `lfs_fs_traverse_`: the blocks the callback gets. The walk over the directories is one call. -/
def fsTraverse : Code c (List UInt32) := do
  let v ← look
  let f := v.file
  dirCall
  let committed ← entryTraverse v.entry
  let dirty ← openTraverse (f.dirty && !f.inlined) f.head f.size
  stray (f.between c)
  let written ← openTraverse (f.writing && !f.inlined) f.block f.pos
  return v.tree ++ v.dirs ++ committed ++ dirty ++ written

/-- The blocks of the window whose bit is set. -/
def Lookahead.marked (c : Config) (la : Lookahead) : List UInt32 :=
  ((List.range la.size.toNat).filter fun j => Bitmap.test la.buffer j).map fun j =>
    (la.start + .ofNat j) % c.blockCount

/-- The window that a traversal has filled. -/
def Lookout.mark (c : Config) (visited : List UInt32) (la : Lookout) : Lookout :=
  let filled := visited.foldl (allocLookahead c) la.toLookahead
  ⟨filled, (filled.marked c).toFinset ∪ la.found⟩

/-- `lfs_alloc_drop`, on the volume. -/
def Lookout.drop (c : Config) (la : Lookout) : Lookout := ⟨allocDrop c la.toLookahead, ∅⟩

/-- `lfs_alloc_scan`, on the volume. -/
def volScan : Code c Unit := do
  setLa (Lookout.map (Lookahead.slide c))
  match ← attempt fsTraverse with
  | .ok visited => setLa (Lookout.mark c visited)
  | .error e => do
    setLa (Lookout.drop c)
    fail e

/-- The block at `next` is handed out. -/
def Lookout.hand (c : Config) (la : Lookout) : Lookout :=
  ⟨la.advance.skip, insert (la.block c) la.found⟩

/-- One round of `lfs_alloc`: a block of the window, or the next window. -/
def volAllocRound : Code c (Option UInt32) := do
  setLa (Lookout.map Lookahead.skip)
  let v ← look
  if v.la.next < v.la.size then do
    setLa (Lookout.hand c)
    return some (v.la.block c)
  else if v.la.ckpoint = 0 then fail (.err errNoSpc)
  else do
    volScan
    return none

/-- `lfs_alloc` with at most `k` rounds. -/
def volAllocLoop : ℕ → Code c UInt32
  | 0 => fail .endless
  | k + 1 => do
    match ← volAllocRound with
    | some b => return b
    | none => volAllocLoop k

/-- `lfs_alloc`, on the volume. -/
def volAlloc : Code c UInt32 := do
  let v ← look
  volAllocLoop (v.la.ckpoint.toNat + 1)

/-- `lfs_alloc_ckpoint`, on the volume. -/
def volCkpoint : Code c Unit := setLa (Lookout.map (allocCkpoint c))

/-- The loop of `lfs_ctz_extend` and `lfs_file_relocate`, over at most `k` blocks: a new block to
use, and another one while it is bad. -/
def onNewBlock {α : Type} (use : UInt32 → Code c (Option α)) : ℕ → Code c (UInt32 × α)
  | 0 => fail .endless
  | k + 1 => do
    let nblock ← volAlloc
    match ← use nblock with
    | some a => return (nblock, a)
    | none => onNewBlock use k

/-- `k` bytes from `i` on, as `read` gets them, to the same place of the block `dst`; `false` on a
bad block. -/
def copyBytes (read : UInt32 → Code c (List UInt8)) (dst : UInt32) (i : UInt32) : ℕ → Code c Bool
  | 0 => return true
  | k + 1 => do
    let data ← read i
    if ← bdProg dst i data then copyBytes read dst (i + 1) k
    else return false

/-- The pointers of a new block from the `i`-th on, `k` of them. -/
def appendPointers (nblock : UInt32) (i : UInt32) : ℕ → UInt32 → Code c Bool
  | 0, _ => return true
  | k + 1, nhead => do
    if ← bdProg nblock (4 * i) (le32 nhead) then
      if k = 0 then return true
      else do
        let nhead ← bdRead32 nhead (4 * i)
        appendPointers nblock (i + 1) k nhead
    else return false

/-- What `lfs_ctz_extend` does with one block, up to a bad one: the place to go on at. -/
def ctzExtendOnto (nblock head size : UInt32) : Code c (Option UInt32) := do
  if ← bdErase nblock then
    if size = 0 then return some 0
    else do
      let (index, noff) := ctzIndex c (size - 1)
      let noff := noff + 1
      if noff ≠ c.blockSize then
        -- just copy out the last block if it is incomplete
        if ← copyBytes (fun i => bdRead head i 1) nblock 0 noff.toNat then return some noff
        else return none
      else
        -- append block
        let index := index + 1
        let skips := ctz index + 1
        if ← appendPointers nblock 0 skips.toNat head then return some (4 * skips)
        else return none
  else return none

/-- `lfs_ctz_extend`: the block to go on in, and the place there. -/
def ctzExtend (head size : UInt32) : Code c (UInt32 × UInt32) :=
  onNewBlock (fun nblock => ctzExtendOnto nblock head size) (c.count + 1)

end Boatdash.Lfs
