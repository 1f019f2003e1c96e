import Boatdash.Spec.Lfs.Ctz

/-!
# The open file

Reading, writing, seeking, truncating and syncing the open file. A small file is `inlined`, its
bytes are in `cache` and go into the directory; a larger one has blocks, and while it is written
those before `pos` are new ones. What is behind them comes from the old version when the file is
flushed.
-/

namespace Boatdash.Lfs

open Prog

variable {c : Config}

/-- `lfs_file_size_`. -/
def File.fileSize (f : File) : UInt32 := if f.writing then max f.pos f.size else f.size

/-- The bytes of an inline file as those of a block. -/
def File.cacheMem (f : File) : UInt32 → ℕ → UInt8 := fun _ => f.cache

/-- The handles that `lfs_file_flushedread` reads by. -/
inductive Handle
  | file
  | orig

def Volume.handle (v : Volume c) : Handle → File
  | .file => v.file
  | .orig => v.orig

/-- A change of a handle. -/
def setHandle (g : File → File) : Handle → Code c Unit
  | .file => setFile g
  | .orig => update (fun v => { v with orig := g v.orig }) fun _ h => h

/-- The code, with the file marked when it fails. -/
def orErred {α : Type} (m : Code c α) : Code c α := do
  match ← attempt m with
  | .ok a => return a
  | .error e => do
    setFile fun f => { f with erred := true }
    fail e

/-! ## Relocating -/

/-- A byte that `lfs_file_relocate` copies: from the cache of an inline file, or the block. -/
def relocateRead (f : File) (i : UInt32) : Code c (List UInt8) :=
  if f.inlined then return [f.cache i.toNat] else bdRead f.block i 1

/-- What `lfs_file_relocate` does with one block, up to a bad one. -/
def relocateOnto (f : File) (nblock : UInt32) : Code c (Option Unit) := do
  if ← bdErase nblock then
    if ← copyBytes (relocateRead f) nblock 0 f.off.toNat then return some ()
    else return none
  else return none

/-- `lfs_file_relocate`. -/
def fileRelocate : Code c Unit := do
  let v ← look
  let (nblock, _) ← onNewBlock (relocateOnto v.file) (c.count + 1)
  setFile fun f => { f with block := nblock, writing := true }

/-- `lfs_file_outline`. -/
def fileOutline : Code c Unit := do
  setFile fun f => { f with off := f.pos }
  volCkpoint
  fileRelocate
  setFile fun f => { f with inlined := false }

/-! ## Writing -/

/-- The block that `lfs_file_flushedwrite` extends from. -/
def findLast : Code c Unit := do
  let v ← look
  let f := v.file
  if !f.writing && 0 < f.pos then do
    let (block, _) ← ctzFind f.head f.size (f.pos - 1)
    setFile fun f => { f with block := block }
  else return ()

/-- The part of `lfs_file_flushedwrite` that extends the file with new blocks. -/
def extendFile : Code c Unit := do
  volCkpoint
  let v ← look
  let (block, off) ← ctzExtend v.file.block v.file.pos
  setFile fun f => { f with block := block, off := off, writing := true }

/-- The part of `lfs_file_flushedwrite` that checks if a new block is needed. -/
def nextBlock : Code c Unit := do
  let v ← look
  if !v.file.writing || v.file.off == c.blockSize then
    if v.file.inlined then
      setFile fun f => { f with block := blockInline, off := f.pos, writing := true }
    else do
      findLast
      extendFile
  else return ()

/-- `lfs_bd_prog` at the place in the file. -/
def fileProg (data : List UInt8) : Code c Bool := do
  let v ← look
  if v.file.inlined then do
    setFile fun f => { f with cache := setBytes f.cacheMem f.block f.off.toNat data f.block }
    return true
  else bdProg v.file.block v.file.off data

/-- The part of `lfs_file_flushedwrite` that programs a block, over at most `k` of them. -/
def progFile (data : List UInt8) : ℕ → Code c Unit
  | 0 => fail .endless
  | k + 1 => do
    if ← fileProg data then return ()
    else do
      fileRelocate
      progFile data k

/-- The body of the loop of `lfs_file_flushedwrite`: how much of the data it writes. -/
def writeChunk (data : List UInt8) : Code c ℕ := do
  orErred nextBlock
  -- program as much as we can in current block
  let v ← look
  let diff := min (.ofNat data.length) (c.blockSize - v.file.off)
  orErred (progFile (data.take diff.toNat) (c.count + 1))
  setFile fun f => { f with pos := f.pos + diff, off := f.off + diff }
  volCkpoint
  return diff.toNat

/-- The loop of `lfs_file_flushedwrite`. -/
def flushedWriteLoop : ℕ → List UInt8 → Code c Unit
  | _, [] => return ()
  | 0, _ :: _ => fail .endless
  | k + 1, x :: data => do
    let diff ← writeChunk (x :: data)
    flushedWriteLoop k ((x :: data).drop diff)

/-- The part of `lfs_file_flushedwrite` for an inline file that doesn't fit anymore. -/
def outlineFor (size : UInt32) : Code c Unit := do
  let v ← look
  if v.file.inlined && v.lim.inlineMax < max (v.file.pos + size) v.file.size then
    orErred fileOutline
  else return ()

/-- `lfs_file_flushedwrite`. -/
def flushedWrite (data : List UInt8) : Code c Unit := do
  outlineFor (.ofNat data.length)
  flushedWriteLoop data.length data

/-! ## Reading -/

/-- The part of `lfs_file_flushedread` that checks if a new block is needed. -/
def readBlock (h : Handle) : Code c Unit := do
  let v ← look
  let f := v.handle h
  if !f.reading || f.off == c.blockSize then
    if f.inlined then
      setHandle (fun f => { f with block := blockInline, off := f.pos, reading := true }) h
    else do
      let (block, off) ← ctzFind f.head f.size f.pos
      setHandle (fun f => { f with block := block, off := off, reading := true }) h
  else return ()

/-- `n` bytes at the place in the file. -/
def readData (f : File) (n : ℕ) : Code c (List UInt8) :=
  if f.inlined then return bytesAt f.cacheMem f.block f.off.toNat n else bdRead f.block f.off n

/-- The body of the loop of `lfs_file_flushedread`. -/
def readChunk (h : Handle) (nsize : UInt32) : Code c (List UInt8) := do
  readBlock h
  -- read as much as we can in current block
  let v ← look
  let f := v.handle h
  let diff := min nsize (c.blockSize - f.off)
  let data ← readData f diff.toNat
  setHandle (fun f => { f with pos := f.pos + diff, off := f.off + diff }) h
  return data

/-- The loop of `lfs_file_flushedread`. -/
def flushedReadLoop (h : Handle) : ℕ → UInt32 → Code c (List UInt8)
  | 0, nsize => if nsize = 0 then return [] else fail .endless
  | k + 1, nsize =>
    if nsize = 0 then return []
    else do
      let data ← readChunk h nsize
      let rest ← flushedReadLoop h k (nsize - .ofNat data.length)
      return data ++ rest

/-- `lfs_file_flushedread`. -/
def flushedRead (h : Handle) (size : UInt32) : Code c (List UInt8) := do
  let v ← look
  let f := v.handle h
  -- eof if past end
  if f.size ≤ f.pos then return []
  else do
    let size := min size (f.size - f.pos)
    flushedReadLoop h size.toNat size

/-! ## Flushing -/

/-- The loop of `lfs_file_flush` that copies over anything after the current branch, a byte at a
time and at most `k` of them. -/
def copyRest : ℕ → Code c Unit
  | 0 => return ()
  | k + 1 => do
    let v ← look
    if v.file.pos < v.file.size then do
      let data ← flushedRead .orig 1
      flushedWrite data
      copyRest k
    else return ()

/-- The loop of `lfs_file_flush` that writes out what we have, over at most `k` blocks. -/
def flushOut : ℕ → Code c Unit
  | 0 => fail .endless
  | k + 1 => do
    if ← bdFlush then return ()
    else do
      fileRelocate
      flushOut k

/-- What `lfs_file_flush` does before the updates of a file that is written. -/
def flushData : Code c Unit := do
  let v ← look
  let f := v.file
  if f.inlined then setFile fun f => { f with pos := max f.pos f.size }
  else do
    setHandle (fun _ => { head := f.head, size := f.size, pos := f.pos }) .orig
    copyRest (f.size.toNat - f.pos.toNat)
    flushOut (c.count + 1)

/-- `lfs_file_flush`. -/
def fileFlush : Code c Unit := do
  setFile fun f => { f with reading := false }
  let v ← look
  if v.file.writing then do
    flushData
    -- actual file updates
    setFile fun f => { f with
      head := f.block, size := f.pos, writing := false, dirty := true, pos := v.file.pos }
  else return ()

/-! ## The calls -/

/-- `lfs_file_flush`, if it is needed. -/
def flushIf (on : File → Bool) : Code c Unit := do
  let v ← look
  if on v.file then fileFlush else return ()

/-- `lfs_file_read_`. -/
def fileRead (size : UInt32) : Code c (List UInt8) := do
  -- flush out any writes
  flushIf File.writing
  flushedRead .file size

/-- The loop of `lfs_file_write_` that fills with zeros up to `pos`, at most `k` of them. -/
def fillZeros (pos : UInt32) : ℕ → Code c Unit
  | 0 => return ()
  | k + 1 => do
    let v ← look
    if v.file.pos < pos then do
      flushedWrite [0]
      fillZeros pos k
    else return ()

/-- The part of `lfs_file_write_` for a position behind the end of the file. -/
def fillGap : Code c Unit := do
  let v ← look
  let f := v.file
  if !f.writing && f.size < f.pos then do
    setFile fun f => { f with pos := f.size }
    fillZeros f.pos (f.pos.toNat - f.size.toNat)
  else return ()

/-- `lfs_file_write_`. -/
def fileWrite (data : List UInt8) : Code c ℤ := do
  -- drop any reads
  flushIf File.reading
  setFile fun f => if f.append && f.pos < f.size then { f with pos := f.size } else f
  let v ← look
  if v.lim.fileMax < v.file.pos + .ofNat data.length then return errFbig
  else do
    fillGap
    flushedWrite data
    setFile fun f => { f with erred := false }
    return data.length

/-- `LFS_SEEK_SET`, `LFS_SEEK_CUR` and `LFS_SEEK_END`. -/
inductive Whence
  | seekSet
  | seekCur
  | seekEnd

/-- The position `lfs_file_seek_` is to go to. -/
def File.target (f : File) (off : Int32) : Whence → UInt32
  | .seekSet => off.toUInt32
  | .seekCur => f.pos + off.toUInt32
  | .seekEnd => f.fileSize + off.toUInt32

/-- `lfs_file_seek_`. -/
def fileSeek (off : Int32) (whence : Whence) : Code c ℤ := do
  let v ← look
  let f := v.file
  let npos := f.target off whence
  if v.lim.fileMax < npos then return errInval
  else if f.pos = npos then return npos.toNat
  else if f.reading ∧ f.off ≠ c.blockSize ∧ (ctzIndex c f.pos).1 = (ctzIndex c npos).1 ∧
      v.env.cached v.calls (ctzIndex c npos).2 then do
    -- our new offset is still in the file's cache
    setFile fun f => { f with pos := npos, off := (ctzIndex c npos).2 }
    return npos.toNat
  else do
    fileFlush
    setFile fun f => { f with pos := npos }
    return npos.toNat

/-- The part of `lfs_file_truncate_` for a smaller size. -/
def truncateShrink (size : UInt32) : Code c ℤ := do
  let v ← look
  if size ≤ v.lim.inlineMax then do
    -- flush+seek to head
    let res ← fileSeek 0 .seekSet
    if res < 0 then return res
    else do
      let data ← flushedRead .file size
      setFile fun f => { f with
        head := blockInline, size := size, dirty := true, reading := true, inlined := true
        cache := fun i => (data[i]?).getD (f.cache i) }
      return 0
  else do
    fileFlush
    -- lookup new head in ctz skip list
    let v ← look
    let (block, _) ← ctzFind v.file.head v.file.size (size - 1)
    setFile fun f => { f with
      block := block, pos := size, head := block, size := size, dirty := true, reading := true }
    return 0

/-- The loop of `lfs_file_truncate_` that fills with zeros, at most `k` of them. -/
def truncateFill (size : UInt32) : ℕ → Code c ℤ
  | 0 => return 0
  | k + 1 => do
    let v ← look
    if v.file.pos < size then do
      let res ← fileWrite [0]
      if res < 0 then return res else truncateFill size k
    else return 0

/-- The part of `lfs_file_truncate_` for a larger size. -/
def truncateGrow (size : UInt32) : Code c ℤ := do
  -- flush+seek if not already at end
  let res ← fileSeek 0 .seekEnd
  if res < 0 then return res
  else do
    let v ← look
    truncateFill size (size.toNat - v.file.pos.toNat)

/-- The part of `lfs_file_truncate_` that changes the size. -/
def truncateTo (size : UInt32) : Code c ℤ := do
  let v ← look
  if size < v.file.fileSize then truncateShrink size
  else if v.file.fileSize < size then truncateGrow size
  else return 0

/-- `lfs_file_truncate_`. -/
def fileTruncate (size : UInt32) : Code c ℤ :=
  if 0x7fffffff < size then return errInval
  else do
    let v ← look
    let res ← truncateTo size
    if res < 0 then return res
    else do
      -- restore pos
      let res ← fileSeek (.ofUInt32 v.file.pos) .seekSet
      if res < 0 then return res else return 0

/-- The file as it goes into its directory. -/
def File.entry (f : File) : Entry :=
  if f.inlined then .inlineStruct (bytesAt f.cacheMem f.head 0 f.size.toNat)
  else .ctzStruct f.head f.size

/-- A change of what the directories have. -/
def setDirs (dirs : List UInt32) (entry : Entry) : Code c Unit :=
  update (fun v => { v with dirs := dirs, entry := entry }) fun _ h => h

/-- One step of the code for the directories, on the way to have `entry` there. -/
def dirStep (entry : Entry) : DirStep → Code c Unit
  | .write b bytes => update (fun v => if b ∈ v.dirs then
      { v with mem := fun b' => if b' = b then bytes else v.mem b' } else v) fun v h => by
        split <;> exact h
  | .take => do
    let b ← volAlloc
    let v ← look
    setDirs (b :: v.dirs) v.entry
  | .free b => do
    let v ← look
    setDirs (v.dirs.filter (· ≠ b)) v.entry
  | .land => do
    let v ← look
    setDirs v.dirs entry

def dirSteps (entry : Entry) : List DirStep → Code c Unit
  | [] => return ()
  | s :: steps => do
    dirStep entry s
    dirSteps entry steps

/-- `lfs_dir_commit`. An `entry` is there after it, and may be after an error. -/
def dirCommit (entry : Entry) : Code c Unit := do
  let v ← look
  dirSteps entry (v.env.steps v.calls)
  dirCall
  let v ← look
  setDirs v.dirs entry

/-- The part of `lfs_file_sync_` that updates the directory entry. -/
def commitFile : Code c Unit := do
  let v ← look
  dirCommit v.file.entry
  setFile fun f => { f with dirty := false }

/-- `lfs_bd_sync`, so that data writes don't complete after metadata writes. -/
def syncData : Code c Unit := do
  let v ← look
  if !v.file.inlined then bdSync else return ()

/-- `lfs_file_sync_`. -/
def fileSync : Code c Unit := do
  let v ← look
  -- it's not safe to do anything if our file errored
  if v.file.erred then return ()
  else do
    orErred fileFlush
    let v ← look
    if v.file.dirty then do
      syncData
      orErred commitFile
    else return ()

end Boatdash.Lfs
