import Boatdash.Lib.Machine
import Boatdash.Spec.Apsta
import Boatdash.Spec.Config
import Boatdash.Spec.HttpUi

/-!
# `app_main.c`, and the device over its boots

`appMain` is the list of its statements on the memory of the running program, the `Board`.
A boot runs them in order; `ESP_ERROR_CHECK` on a failure and a read through `NULL` end it,
and a reset may end it anywhere. `deviceMachine` has the boots of a device with the updates
installed and the settings written in between.

The statements that neither fail nor change any of this (`sensors_start`, `tach_start`,
`relays_init`, all empty, and the last log line) keep their place in the list.
-/

namespace Boatdash

/-- How one boot goes: the results of the calls `app_main` and the components make. -/
structure BootEnv where
  nvsFlashInit : EspErr := espOk
  eventLoop : EspErr := espOk
  initDefaults : NvsRes := {}
  fsRegister : EspErr := espOk
  getApPsk : NvsRes := {}
  getStaSsid : NvsRes := {}
  getStaPsk : NvsRes := {}
  wifi : WifiEnv := { driver := .byLength }
  httpd : HttpdEnv := {}
  markValid : EspErr := espOk

/-- The memory of the running program, with the flash behind it. -/
structure Board where
  nvs : Nvs
  ota : Ota
  halted : Bool := false
  fsMounted : Bool := false
  apPsk : List UInt8 := []
  staSsid : List UInt8 := []
  staPsk : List UInt8 := []
  apsta : ApstaRun := {}
  ui : HttpUi := {}

/-- `ESP_ERROR_CHECK`. -/
def Board.espErrorCheck (err : EspErr) (b : Board) : Board :=
  if err ≠ espOk then { b with halted := true } else b

/-- `ui_fs_mount`; `app_main` ignores the result. -/
def Board.uiFsMount (err : EspErr) (b : Board) : Board := { b with fsMounted := err = espOk }

/-- `net_start_apsta` on the three buffers. -/
def Board.netStart (env : WifiEnv) (b : Board) : Board :=
  let r := netStartApsta env (some (CString.ofBuf b.apPsk)) (some (CString.ofBuf b.staSsid))
    (some (CString.ofBuf b.staPsk))
  { b with apsta := r, halted := r.nullRead.isSome }

/-- `ota_mark_valid_on_boot`. -/
def Board.otaMarkValidOnBoot (err : EspErr) (b : Board) : Board :=
  { b with ota := b.ota.markAppValid err }

/-- The statements of `app_main`. -/
def appMain (env : BootEnv) : List (Board → Board) :=
  [Board.espErrorCheck env.nvsFlashInit,
    Board.espErrorCheck env.eventLoop,
    fun b => { b with nvs := configInitDefaults env.initDefaults b.nvs },
    Board.uiFsMount env.fsRegister,
    -- `char ap_psk[65]={0}, sta_ssid[33]={0}, sta_psk[65]={0};`
    fun b => { b with apPsk := zeros 65, staSsid := zeros 33, staPsk := zeros 65 },
    fun b =>
      let (out, n) := configGetStr env.getApPsk "ap_psk" b.apPsk 65 apPskDefault b.nvs
      { b with apPsk := out, nvs := n },
    fun b =>
      let (out, n) := configGetStr env.getStaSsid "sta_ssid" b.staSsid 33 .empty b.nvs
      { b with staSsid := out, nvs := n },
    fun b =>
      let (out, n) := configGetStr env.getStaPsk "sta_psk" b.staPsk 65 .empty b.nvs
      { b with staPsk := out, nvs := n },
    Board.netStart env.wifi,
    fun b => { b with ui := httpUiStart env.httpd b.ui },
    -- `sensors_start`, `tach_start`, `relays_init`
    id, id, id,
    Board.otaMarkValidOnBoot env.markValid,
    -- the log line
    id]

/-- The statements in order, as long as the program runs. -/
def Board.exec (b : Board) (ss : List (Board → Board)) : Board :=
  ss.foldl (fun b s => if b.halted then b else s b) b

/-! ## The device -/

/-- What a device keeps without power, and which of its images have run a healthy boot. -/
structure Device where
  cfg : String → Option CString
  ota : Ota
  proven : Bool → Bool

/-- The program starts, in the image the bootloader chose. -/
def Board.reset (cfg : String → Option CString) (ota : Ota) : Board :=
  { nvs := { cfg := cfg }, ota := ota.bootloader }

/-- **The systems an update needs**: the filesystem, the access point and the HTTP server
with its handlers. -/
structure Board.Healthy (b : Board) : Prop where
  fs : b.fsMounted = true
  init : .init espOk ∈ b.apsta.calls
  mode : .setMode espOk ∈ b.apsta.calls
  start : .start espOk ∈ b.apsta.calls
  server : b.ui.sServer.elim [] (·.handlers) = [anyStatic, relays, ws]

instance (b : Board) : Decidable b.Healthy :=
  decidable_of_iff (b.fsMounted = true ∧ .init espOk ∈ b.apsta.calls ∧
      .setMode espOk ∈ b.apsta.calls ∧ .start espOk ∈ b.apsta.calls ∧
      b.ui.sServer.elim [] (·.handlers) = [anyStatic, relays, ws])
    ⟨fun ⟨h₁, h₂, h₃, h₄, h₅⟩ => ⟨h₁, h₂, h₃, h₄, h₅⟩,
      fun ⟨h₁, h₂, h₃, h₄, h₅⟩ => ⟨h₁, h₂, h₃, h₄, h₅⟩⟩

/-- What can happen to a device: a boot that runs the first `k` statements, an update, a
setting written or erased by another part. -/
inductive DevEvent
  | boot (env : BootEnv) (k : ℕ)
  | install
  | write (key : String) (val : Option CString)

/-- The board at the end of a boot. -/
def Device.board (d : Device) (env : BootEnv) (k : ℕ) : Board :=
  (Board.reset d.cfg d.ota).exec ((appMain env).take k)

def Device.step (d : Device) : DevEvent → Device
  | .boot env k =>
    let b := d.board env k
    { cfg := b.nvs.cfg
      ota := b.ota
      proven := if b.Healthy then Function.update d.proven b.ota.running true else d.proven }
  | .install =>
    { d with
      ota := d.ota.install
      -- a refused update leaves the other slot's image
      proven := if d.ota.state d.ota.running = .valid then
          Function.update d.proven (!d.ota.running) false
        else d.proven }
  | .write key val => { d with cfg := Function.update d.cfg key val }

def Device.out (d : Device) : DevEvent → Option Board
  | .boot env k => some (d.board env k)
  | _ => none

/-- A device over its boots, updates and writes. -/
def deviceMachine : Machine Device DevEvent (Option Board) := ⟨Device.step, Device.out⟩

@[simp] theorem deviceMachine_step (d : Device) (e : DevEvent) :
    deviceMachine.step d e = d.step e := rfl

/-- A device as made: one image, confirmed, and an empty slot. -/
def Device.made (cfg : String → Option CString) : Device where
  cfg := cfg
  ota := { state := fun slot => if slot then .aborted else .valid, boot := false, running := false }
  proven slot := !slot

end Boatdash
