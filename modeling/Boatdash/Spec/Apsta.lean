import Boatdash.Spec.Idf

/-!
# `net_apsta.c`

The access point and the station are configured and started. A `const char *` argument is
a string or `none` for `NULL`; a read through `NULL` ends the call, and the run records
which argument it was. No result of a driver call is looked at.
-/

namespace Boatdash

/-- How the driver calls go. `esp_wifi_set_config` for the access point fails with `apErr`,
or else as the driver takes the configuration. -/
structure WifiEnv where
  driver : WifiDriver
  mac : Fin 6 → UInt8 := fun _ => 0
  init : EspErr := espOk
  setMode : EspErr := espOk
  apErr : EspErr := espOk
  staErr : EspErr := espOk
  start : EspErr := espOk
  connect : EspErr := espOk

/-- The arguments `net_start_apsta` copies from. -/
inductive ApstaArg
  | apPsk
  | staPsk
deriving DecidableEq

/-- The driver calls made, and the argument read through `NULL`, if any. -/
structure ApstaRun where
  calls : List WifiCall := []
  nullRead : Option ApstaArg := none
deriving DecidableEq

/-- A digit of `%X`. -/
def hexDigit (d : ℕ) : UInt8 := if d < 10 then (48 + d).toUInt8 else (55 + d).toUInt8

/-- `%02X`. -/
def hexByte (b : UInt8) : List UInt8 := [hexDigit (b.toNat / 16), hexDigit (b.toNat % 16)]

/-- The bytes of a zeroed field. -/
abbrev zeros (n : ℕ) : List UInt8 := List.replicate n 0

/-- `ap`, up to its password. -/
def apConfig (env : WifiEnv) : ApConfig where
  ssid := CString.store (zeros 32)
    (CString.ascii "BOATDASH-" ++ hexByte (env.mac 4) ++ hexByte (env.mac 5) ++ [0])
  password := zeros 64
  channel := 1
  authmode := .wpa2Psk
  maxConnection := 4

/-- `st`, after its `if`; `none` when it reads `sta_psk` through `NULL`. -/
def staConfig (staSsid staPsk : Option CString) : Option StaConfig :=
  let st : StaConfig := { ssid := zeros 32, password := zeros 64, threshold := .wpa2Psk }
  match staSsid with
  | none => some st
  | some s =>
    if s.length ≠ 0 then
      let st := { st with ssid := CString.strlcpy st.ssid s 32 }
      -- `sta_psk?"":sta_psk`: empty for a password, and the null pointer for none
      let src := if staPsk.isSome then some CString.empty else staPsk
      src.map fun k => { st with password := CString.strlcpy st.password k 64 }
    else some st

/-- `*st.sta.ssid`. -/
def StaConfig.on (st : StaConfig) : Bool := st.ssid.headD 0 ≠ 0

/-- `net_start_apsta`. -/
def netStartApsta (env : WifiEnv) (apPsk staSsid staPsk : Option CString) : ApstaRun :=
  let calls := [WifiCall.init env.init]
  match apPsk with
  | none => ⟨calls, some .apPsk⟩
  | some psk =>
    let ap := { apConfig env with password := CString.strlcpy (apConfig env).password psk 64 }
    match staConfig staSsid staPsk with
    | none => ⟨calls, some .staPsk⟩
    | some st =>
      let apRet := if env.apErr ≠ espOk then env.apErr
        else if env.driver.takesAp ap then espOk else espErrWifiPassword
      -- whatever the result, the next call is made
      ⟨calls ++ [.setMode env.setMode, .setConfigAp ap apRet] ++
        (if st.on then [.setConfigSta st env.staErr] else []) ++ [.start env.start] ++
        (if st.on then [.connect env.connect] else []), none⟩

end Boatdash
