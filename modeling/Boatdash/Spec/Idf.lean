import Mathlib.Data.Int.Notation
import Mathlib.Logic.Function.Basic
import Boatdash.Lib.CString

/-!
# ESP-IDF, as the code relies on it

None of this is in the repository: the HTTP server, the NVS library, the Wi-Fi
driver and the bootloader, each reduced to the behaviour the components rely on.
What a call may do either way (fail, accept, leave in an uninitialised variable) is
an argument, so a statement about the code holds for every choice of it.

* `Httpd`: the URI table with its matcher, lookup and registration.
* `Nvs`: the namespace `"cfg"`, its open handles and the calls made.
* `WifiDriver`, `WifiCall`: which access-point configurations the driver takes, and
  the calls made to it.
* `Ota`: the two application slots, the bootloader's choice at a reset.
-/

namespace Boatdash

/-! ## Error codes -/

/-- `esp_err_t`. -/
abbrev EspErr := ℤ

def espOk : EspErr := 0
def espFail : EspErr := -1
def espErrNoMem : EspErr := 0x101
def espErrHttpdHandlersFull : EspErr := 0xb001
def espErrHttpdHandlerExists : EspErr := 0xb002
def espErrWifiPassword : EspErr := 0x300b

/-! ## The HTTP server -/

/-- A request method, by the parser's numbering (`HTTP_GET` is 1, `HTTP_POST` is 3). -/
inductive HttpMethod
  | get
  | post
  | other (code : ℕ)
deriving DecidableEq

/-- `httpd_ws_type_t`. -/
inductive WsType
  | continuation
  | text
  | binary
  | close
  | ping
  | pong
deriving DecidableEq

/-- `httpd_ws_frame_t`: `payload` is the memory pointed at, `none` for `NULL`. -/
structure WsFrame where
  type : WsType
  payload : Option (List UInt8)
  len : UInt32
deriving DecidableEq

/-- `httpd_config_t`: `uri_match_fn` and `close_fn`, both null by default. `U` is what a
callback may change. -/
structure HttpdConfig (U : Type) where
  uriMatchFn : Option (String → String → Bool) := none
  closeFn : Option (ℤ → U → U) := none

/-- `HTTPD_DEFAULT_CONFIG()`. -/
def httpdDefaultConfig (U : Type) : HttpdConfig U := {}

/-- `httpd_uri_t`; `H` is the type of handlers. -/
structure HttpdUri (H : Type) where
  uri : String
  method : HttpMethod
  handler : H
  isWebsocket : Bool := false
deriving DecidableEq

/-- A running server: its configuration and the registered entries, first to last. -/
structure Httpd (U H : Type) where
  config : HttpdConfig U
  handlers : List (HttpdUri H)

variable {U H : Type}

/-- Whether a template matches a path: the same string, unless a matcher is set. -/
def HttpdConfig.uriMatches (c : HttpdConfig U) (template path : String) : Bool :=
  match c.uriMatchFn with
  | none => template = path
  | some f => f template path

/-- Lookup: the first entry whose template and method match. -/
def Httpd.find (s : Httpd U H) (method : HttpMethod) (path : String) : Option (HttpdUri H) :=
  s.handlers.find? fun u => s.config.uriMatches u.uri path && u.method = method

/-- `httpd_register_uri_handler`. An entry whose own URI and method already find a handler
is refused; so is one the server has no room for. -/
def Httpd.register (s : Httpd U H) (room : Bool) (u : HttpdUri H) : EspErr × Httpd U H :=
  -- the duplicate check looks the template up as if it were a path
  if (s.find u.method u.uri).isSome then (espErrHttpdHandlerExists, s)
  else if room then (espOk, { s with handlers := s.handlers ++ [u] })
  else (espErrHttpdHandlersFull, s)

/-- A request as it arrives: the query is cut off before lookup. -/
structure HttpRequest where
  method : HttpMethod
  path : String
  query : Option String

/-- The handler a request is dispatched to. -/
def Httpd.dispatch (s : Httpd U H) (req : HttpRequest) : Option H :=
  (s.find req.method req.path).map (·.handler)

/-! ## NVS -/

/-- How the NVS calls of one function go: which of them fail, and what `nvs_open` leaves in
the caller's uninitialised handle when it does. -/
structure NvsRes where
  openFails : Bool := false
  setFails : Bool := false
  getFails : Bool := false
  commitFails : Bool := false
  junk : ℕ := 0

/-- A call to the library: the handle it was given or returned, and whether it succeeded. -/
inductive NvsCall
  | opened (h : Option ℕ)
  | setStr (h : ℕ) (key : String) (ok : Bool)
  | getStr (h : ℕ) (key : String) (ok : Bool)
  | commit (h : ℕ) (ok : Bool)
  | close (h : ℕ)
deriving DecidableEq

/-- The namespace `"cfg"`: its strings, the open handles with whether they may write, the
next handle, and the calls made. -/
structure Nvs where
  cfg : String → Option CString
  handles : List (ℕ × Bool) := []
  next : ℕ := 1
  calls : List NvsCall := []

/-- `nvs_open`. -/
def Nvs.open (n : Nvs) (r : NvsRes) (write : Bool) : Option ℕ × Nvs :=
  if r.openFails then (none, { n with calls := n.calls ++ [.opened none] })
  else (some n.next,
    { n with handles := (n.next, write) :: n.handles, next := n.next + 1,
             calls := n.calls ++ [.opened (some n.next)] })

/-- `nvs_set_str`: needs an open handle that may write; may fail and leave the old value. -/
def Nvs.setStr (n : Nvs) (r : NvsRes) (h : ℕ) (key : String) (val : CString) : Bool × Nvs :=
  if (h, true) ∈ n.handles ∧ r.setFails = false then
    (true, { n with cfg := Function.update n.cfg key (some val),
                    calls := n.calls ++ [.setStr h key true] })
  else (false, { n with calls := n.calls ++ [.setStr h key false] })

/-- `nvs_get_str` into the first `len` bytes of `out`: the value and its terminator when the
key exists and they fit, otherwise an error and nothing written. -/
def Nvs.getStr (n : Nvs) (r : NvsRes) (h : ℕ) (key : String) (out : List UInt8) (len : ℕ) :
    Bool × List UInt8 × Nvs :=
  let fails := (false, out, { n with calls := n.calls ++ [.getStr h key false] })
  if (h, false) ∈ n.handles ∨ (h, true) ∈ n.handles then
    match n.cfg key with
    | none => fails
    | some v =>
      if r.getFails = false ∧ v.length + 1 ≤ len then
        (true, CString.store out (v.bytes ++ [0]),
          { n with calls := n.calls ++ [.getStr h key true] })
      else fails
  else fails

/-- `nvs_commit`. -/
def Nvs.commit (n : Nvs) (r : NvsRes) (h : ℕ) : Bool × Nvs :=
  let ok := decide ((h, true) ∈ n.handles ∧ r.commitFails = false)
  (ok, { n with calls := n.calls ++ [.commit h ok] })

/-- `nvs_close`. -/
def Nvs.close (n : Nvs) (h : ℕ) : Nvs :=
  { n with handles := n.handles.filter (·.1 ≠ h), calls := n.calls ++ [.close h] }

/-! ## Wi-Fi -/

/-- `wifi_auth_mode_t`, as far as it is used. -/
inductive WifiAuth
  | open
  | wpa2Psk
deriving DecidableEq

/-- `wifi_ap_config_t`: `ssid` is 32 bytes, `password` 64. -/
structure ApConfig where
  ssid : List UInt8
  password : List UInt8
  channel : ℕ
  authmode : WifiAuth
  maxConnection : ℕ
deriving DecidableEq

/-- `wifi_sta_config_t`: `ssid` is 32 bytes, `password` 64. -/
structure StaConfig where
  ssid : List UInt8
  password : List UInt8
  threshold : WifiAuth
deriving DecidableEq

/-- The driver: which access-point configurations `esp_wifi_set_config` takes. A WPA2
password shorter than 8 bytes is rejected; a well-formed configuration with one of 8 to
63 bytes is taken. -/
structure WifiDriver where
  takesAp : ApConfig → Bool
  short : ∀ c, c.authmode = .wpa2Psk → (CString.ofBuf c.password).length < 8 →
    takesAp c = false
  long : ∀ c, c.authmode = .wpa2Psk → 8 ≤ (CString.ofBuf c.password).length →
    (CString.ofBuf c.password).length < 64 → 0 < (CString.ofBuf c.ssid).length →
    1 ≤ c.channel → c.channel ≤ 13 → 1 ≤ c.maxConnection → c.maxConnection ≤ 10 →
    takesAp c = true

/-- The driver that checks the password's length only. -/
def WifiDriver.byLength : WifiDriver where
  takesAp c := c.authmode ≠ .wpa2Psk || 8 ≤ (CString.ofBuf c.password).length
  short c hc h := by simp [hc]; omega
  long c hc h _ _ _ _ _ _ := by simp [hc, h]

/-- A call to the driver with its result. -/
inductive WifiCall
  | init (err : EspErr)
  | setMode (err : EspErr)
  | setConfigAp (c : ApConfig) (err : EspErr)
  | setConfigSta (c : StaConfig) (err : EspErr)
  | start (err : EspErr)
  | connect (err : EspErr)
deriving DecidableEq

/-! ## Application slots -/

/-- `esp_ota_img_states_t`, as far as it is used. -/
inductive ImgState
  | new
  | pendingVerify
  | valid
  | aborted
deriving DecidableEq

/-- The two slots' states, the slot `otadata` selects and the slot that runs. -/
structure Ota where
  state : Bool → ImgState
  boot : Bool
  running : Bool

/-- The bootloader at a reset: a new image is tried once; one that was being tried and not
confirmed is aborted, and the other slot is selected again. -/
def Ota.bootloader (o : Ota) : Ota :=
  match o.state o.boot with
  | .new => { o with state := Function.update o.state o.boot .pendingVerify, running := o.boot }
  | .pendingVerify =>
    { state := Function.update o.state o.boot .aborted, boot := !o.boot, running := !o.boot }
  | .valid | .aborted => { o with running := o.boot }

/-- `esp_ota_mark_app_valid_cancel_rollback` on the running image; may fail. -/
def Ota.markAppValid (o : Ota) (err : EspErr) : Ota :=
  if err = espOk then { o with state := Function.update o.state o.running .valid } else o

/-- An update: written to the slot that does not run and selected for the next boot. Refused
while the running image is not confirmed. -/
def Ota.install (o : Ota) : Ota :=
  if o.state o.running = .valid then
    { o with state := Function.update o.state (!o.running) .new, boot := !o.running }
  else o

end Boatdash
