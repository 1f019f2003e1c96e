import Boatdash.Spec.Lfs.Calls

/-!
# Power losses at any time

A `Boot` is what a program does from a mount to the next power loss: it opens the file and makes its
calls, until one fails. The power may go in the middle of a call: the call of the device that it
goes in is the last one then, it fails, and anything may be left in the block. In a commit it may go
before or after what is committed is there.

`Lasts` is what boots may leave of a file, to a program that knows nothing of blocks.
-/

namespace Boatdash.Lfs

open Prog

variable {c : Config}

/-- One call after another until one fails, and the replies of those before. -/
def untilFailure : List Call → Code c (List Reply)
  | [] => return []
  | call :: calls => do
    match ← attempt call.code with
    | .ok reply => do
      let replies ← untilFailure calls
      return reply :: replies
    | .error _ => return []

/-- What happens up to a power loss. -/
structure Boot where
  seed : UInt32
  append : Bool
  trunc : Bool
  calls : List Call
  junk : UInt32 → ℕ → UInt8

/-- The code of a boot. The calls are made only when the file is open. -/
def Boot.code (boot : Boot) : Code c (List Reply) := do
  let replies ← attempt do
    mount boot.seed
    fileOpen boot.append boot.trunc
    untilFailure boot.calls
  powerLoss boot.junk
  match replies with
  | .ok replies => return replies
  | .error _ => return []

/-- One boot after another. -/
def runBoots : List Boot → Code c (List (List Reply))
  | [] => return []
  | boot :: boots => do
    let replies ← boot.code
    let rest ← runBoots boots
    return replies :: rest

/-- The volume is mounted once more, and the file read. -/
def readBack (seed n : UInt32) : Code c (List UInt8) := do
  mount seed
  fileOpen false false
  fileRead n

/-! ## What is left of a file -/

/-- What is saved when the calls that replied are done. The one after them may have saved as well,
before it failed. -/
structure Leaves (max : ℕ) (s : Contents) (calls : List Call) (replies : List Reply)
    (saved : List UInt8) : Prop where
  replied : replies <+: ((contentsMachine max).log s calls).map Prod.snd
  kept : saved = ((contentsMachine max).run s (calls.take replies.length)).saved ∨
    saved = ((contentsMachine max).run s (calls.take (replies.length + 1))).saved

/-- What is saved after some boots, of what was saved before them. -/
inductive Lasts (max : ℕ) : List Boot → List (List Reply) → List UInt8 → List UInt8 → Prop
  | nil (saved : List UInt8) : Lasts max [] [] saved saved
  | cons {boot : Boot} {boots : List Boot} {replies : List Reply} {rest : List (List Reply)}
      {saved saved' saved'' : List UInt8}
      (first : Leaves max (.opened saved boot.append boot.trunc) boot.calls replies saved')
      (others : Lasts max boots rest saved' saved'') :
      Lasts max (boot :: boots) (replies :: rest) saved saved''

end Boatdash.Lfs
