import Boatdash.Lib.Machine
import Boatdash.Lib.Overwrite
import Boatdash.Spec.Lfs.File

/-!
# Calls on an open file

What a program may do with one file: the calls on it, closing it and opening it again, and a power
loss with a mount after it. `Contents` is what these are to a program that knows nothing of blocks:
the bytes of the file, the position, and the bytes that a power loss leaves of it.
-/

namespace Boatdash.Lfs

open Prog Overwrite

variable {c : Config}

/-! ## Opening and closing -/

/-- The file as `lfs_file_opencfg_` loads it from its directory. -/
def Entry.load : Entry → File
  | .inlineStruct data =>
    { head := blockInline, size := .ofNat data.length, inlined := true
      cache := fun i => (data[i]?).getD 0 }
  | .ctzStruct head size => { head := head, size := size }

/-- `lfs_fs_forceconsistency`: its commits leave the entry of the file as it is. -/
def fsForceconsistency : Code c Unit := do
  let v ← look
  dirCommit v.entry

/-- `lfs_file_opencfg_` of a file that exists, with `LFS_O_RDWR`, `LFS_O_APPEND` and `LFS_O_TRUNC`.
It does not set `block`. -/
def fileOpen (append trunc : Bool) : Code c Unit := do
  fsForceconsistency
  dirCall
  let v ← look
  let entry := if trunc then .inlineStruct [] else v.entry
  setFile fun f => { entry.load with block := f.block, dirty := trunc, append := append }

/-- `lfs_file_close_`. -/
def fileClose : Code c Unit := do
  match ← attempt fileSync with
  | .ok _ => setFile fun f => { block := f.block }
  | .error e => do
    setFile fun f => { block := f.block }
    fail e

/-- A power loss: of what was not written by the device anything may be left. -/
def powerLoss (junk : UInt32 → ℕ → UInt8) : Code c Unit :=
  update (fun v => { v with
    mem := fun b => if b ∈ v.unflushed ++ v.unsynced then junk b else v.mem b
    unflushed := [], unsynced := [], file := {} }) fun _ h => h

/-- `lfs_mount_`, with the number that the blocks of the superblock give as `seed`. No file is open
after `lfs_init`. -/
def mount (seed : UInt32) : Code c Unit := do
  setFile fun _ => {}
  dirCall
  setLa fun la => .drop c (la.map fun la => { la with start := seed % c.blockCount })

/-! ## Calls -/

/-- What a program does. -/
inductive Call
  | read (n : UInt32)
  | write (data : List UInt8)
  | seek (off : Int32) (whence : Whence)
  | tell
  | rewind
  | size
  | truncate (n : UInt32)
  | sync
  | reopen (append trunc : Bool)
  /-- the power is lost between two calls -/
  | restart (junk : UInt32 → ℕ → UInt8) (seed : UInt32) (append trunc : Bool)

/-- What it gets: bytes, or a number. -/
inductive Reply
  | data (bytes : List UInt8)
  | code (res : ℤ)
deriving DecidableEq

/-- `lfs_file_rewind_`. -/
def fileRewind : Code c ℤ := do
  let res ← fileSeek 0 .seekSet
  if res < 0 then return res else return 0

/-- The code of a call. -/
def Call.code : Call → Code c Reply
  | .read n => do
    let data ← fileRead n
    return .data data
  | .write data => do
    let res ← fileWrite data
    return .code res
  | .seek off whence => do
    let res ← fileSeek off whence
    return .code res
  | .tell => do
    let v ← look
    return .code v.file.pos.toNat
  | .rewind => do
    let res ← fileRewind
    return .code res
  | .size => do
    let v ← look
    return .code v.file.fileSize.toNat
  | .truncate n => do
    let res ← fileTruncate n
    return .code res
  | .sync => do
    fileSync
    return .code 0
  | .reopen append trunc => do
    fileClose
    fileOpen append trunc
    return .code 0
  | .restart junk seed append trunc => do
    powerLoss junk
    mount seed
    fileOpen append trunc
    return .code 0

/-- One call after another. -/
def runCalls : List Call → Code c (List Reply)
  | [] => return []
  | call :: calls => do
    let reply ← call.code
    let replies ← runCalls calls
    return reply :: replies

/-! ## What a file is -/

/-- The bytes of the file, the position, the bytes that were saved last, and whether writes are
appended. -/
structure Contents where
  bytes : List UInt8 := []
  pos : ℕ := 0
  saved : List UInt8 := []
  append : Bool := false

/-- `l` with zeros up to the length `n`. -/
def padTo (l : List UInt8) (n : ℕ) : List UInt8 := l ++ List.replicate (n - l.length) 0

namespace Contents

/-- What there is to read. -/
def ahead (s : Contents) (n : ℕ) : List UInt8 := (s.bytes.drop s.pos).take n

/-- Where a write starts. -/
def place (s : Contents) : ℕ :=
  if s.append ∧ s.pos < s.bytes.length then s.bytes.length else s.pos

/-- Where a seek goes. -/
def target (s : Contents) (off : Int32) : Whence → ℤ
  | .seekSet => off.toInt
  | .seekCur => s.pos + off.toInt
  | .seekEnd => s.bytes.length + off.toInt

/-- The file as it is opened, of what was saved. -/
def opened (saved : List UInt8) (append trunc : Bool) : Contents :=
  { bytes := if trunc then [] else saved, saved := saved, append := append }

/-- What a call does, for files of `max` bytes at most. -/
def step (max : ℕ) (s : Contents) : Call → Contents
  | .read n => { s with pos := s.pos + (s.ahead n.toNat).length }
  | .write data =>
    if max < s.place + data.length then { s with pos := s.place }
    else { s with
      bytes := put (padTo s.bytes s.place) s.place data, pos := s.place + data.length }
  | .seek off whence =>
    if 0 ≤ s.target off whence ∧ s.target off whence ≤ max then
      { s with pos := (s.target off whence).toNat }
    else s
  | .tell | .size => s
  | .rewind => { s with pos := 0 }
  | .truncate n =>
    if 0x7fffffff < n then s
    else if n.toNat ≤ s.bytes.length then { s with bytes := s.bytes.take n.toNat }
    else if n.toNat ≤ max then { s with bytes := padTo s.bytes n.toNat }
    -- the file is filled up before the call fails
    else { s with bytes := padTo s.bytes max, pos := max }
  | .sync => { s with saved := s.bytes }
  | .reopen append trunc => opened s.bytes append trunc
  | .restart _ _ append trunc => opened s.saved append trunc

/-- What it replies. -/
def out (max : ℕ) (s : Contents) : Call → Reply
  | .read n => .data (s.ahead n.toNat)
  | .write data => .code (if max < s.place + data.length then errFbig else data.length)
  | .seek off whence =>
    .code (if 0 ≤ s.target off whence ∧ s.target off whence ≤ max then s.target off whence
      else errInval)
  | .tell => .code s.pos
  | .size => .code s.bytes.length
  | .truncate n =>
    .code (if 0x7fffffff < n then errInval
      else if s.bytes.length < n.toNat ∧ max < n.toNat then errFbig else 0)
  | .rewind | .sync | .reopen _ _ | .restart _ _ _ _ => .code 0

end Contents

/-- A file, to the program that uses it. -/
def contentsMachine (max : ℕ) : Machine Contents Call Reply := ⟨Contents.step max, Contents.out max⟩

end Boatdash.Lfs
