import Boatdash.Lib.Machine
import Boatdash.Spec.Idf

/-!
# `config_store.c`

The default initialiser and the reader of the NVS namespace `"cfg"`. Neither looks at
the results of the calls that write. `configMachine` has their calls in any order; a call
shows the library calls it made.
-/

namespace Boatdash

/-- The built-in access-point password. -/
def apPskDefault : CString := CString.lit "BoatDash1234"

/-- `config_init_defaults`: after a failed `nvs_open` the handle is whatever the variable
held. -/
def configInitDefaults (r : NvsRes) (n : Nvs) : Nvs :=
  let (opened, n) := n.open r true
  let h := opened.getD r.junk
  -- set, whether the key has a value or not
  let n := (n.setStr r h "ap_psk" apPskDefault).2
  let n := (n.commit r h).2
  n.close h

/-- `config_get_str` into the first `outlen` bytes of `out`. The handle stays open when the
read fails. -/
def configGetStr (r : NvsRes) (key : String) (out : List UInt8) (outlen : ℕ) (defval : CString)
    (n : Nvs) : List UInt8 × Nvs :=
  match n.open r false with
  | (some h, n) =>
    match n.getStr r h key out outlen with
    | (true, out, n) => (out, n.close h)
    -- the `&&` failed on its right: no `nvs_close`
    | (false, out, n) => (CString.strncpy out defval outlen, n)
  | (none, n) => (CString.strncpy out defval outlen, n)

/-! ## Calls one after another -/

/-- A call into the file. -/
inductive ConfigCall
  | initDefaults (r : NvsRes)
  | getStr (r : NvsRes) (key : String) (out : List UInt8) (outlen : ℕ) (defval : CString)

def Nvs.step (n : Nvs) : ConfigCall → Nvs
  | .initDefaults r => configInitDefaults r n
  | .getStr r key out outlen defval => (configGetStr r key out outlen defval n).2

/-- The library calls of a call. -/
def Nvs.made (n : Nvs) (e : ConfigCall) : List NvsCall := (n.step e).calls.drop n.calls.length

/-- Calls of `config_init_defaults` and `config_get_str`. -/
def configMachine : Machine Nvs ConfigCall (List NvsCall) := ⟨Nvs.step, Nvs.made⟩

@[simp] theorem configMachine_step (n : Nvs) (e : ConfigCall) : configMachine.step n e = n.step e :=
  rfl

end Boatdash
