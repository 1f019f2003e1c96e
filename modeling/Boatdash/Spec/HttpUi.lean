import Mathlib.Data.List.FinRange
import Boatdash.Spec.Idf

/-!
# `http_ui.c`

The WebSocket table `ws_fds`, the handler that fills it, the broadcast that sends to it
and clears it, and the URI table. What the handler and the broadcast call outside the
file (`httpd_ws_recv_frame`, `malloc`, `httpd_ws_send_frame_async`, `httpd_start`) is an
argument.
-/

namespace Boatdash

/-- `MAX_CLIENTS`. -/
def maxClients : ℕ := 8

/-- `ws_fds`: a socket number in each slot, `0` for a free one. -/
abbrev WsFds := Fin maxClients → ℤ

/-- The handlers `http_ui_start` registers, by name. -/
inductive Handler
  | wsHandler
  | staticGetHandler
  | relaysPostHandler
deriving DecidableEq

/-- The file's state: `s_server` (`none` for `NULL`) and `ws_fds`. -/
structure HttpUi where
  sServer : Option (Httpd WsFds Handler) := none
  wsFds : WsFds := fun _ => 0

/-! ## `ws_handler` -/

/-- The functions `ws_handler` calls, on the state `σ` of the connection and the heap. -/
structure WsEnv (σ : Type) where
  /-- `httpd_ws_recv_frame(req, pkt, max_len)`: the result, the frame afterwards. -/
  recvFrame : σ → WsFrame → UInt32 → EspErr × WsFrame × σ
  /-- `malloc(size)`: the block, `none` for `NULL`. -/
  malloc : σ → UInt32 → Option (List UInt8) × σ

/-- What a call of `ws_handler` leaves: its result, `ws_fds`, the connection, and the
terminated message it logged. -/
structure WsOutcome (σ : Type) where
  ret : EspErr
  wsFds : WsFds
  io : σ
  msg : Option WsFrame

/-- The search loop: `already` after all slots. -/
def wsAlready (wsFds : WsFds) (fd : ℤ) : Bool :=
  (List.finRange maxClients).foldl (fun already i => if wsFds i = fd then true else already) false

/-- The insert loop from the slots `is` on: the first free one takes `fd`, then `break`. -/
def wsInsert (wsFds : WsFds) (fd : ℤ) : List (Fin maxClients) → WsFds
  | [] => wsFds
  | i :: is => if wsFds i = 0 then Function.update wsFds i fd else wsInsert wsFds fd is

/-- Store the client socket for broadcasting. -/
def wsStore (wsFds : WsFds) (fd : ℤ) : WsFds :=
  if !wsAlready wsFds fd then wsInsert wsFds fd (List.finRange maxClients) else wsFds

/-- `ws_handler`, for a request with `method` on the socket `sockfd`. Sizes wrap at 32 bits;
a block is the list of its bytes, and a terminator past its end is not stored. -/
def wsHandler {σ : Type} (env : WsEnv σ) (io : σ) (method : HttpMethod) (sockfd : ℤ)
    (wsFds : WsFds) : WsOutcome σ :=
  -- the handshake: the socket is not stored
  if method = .get then ⟨espOk, wsFds, io, none⟩
  else
    let wsPkt : WsFrame := { type := .text, payload := none, len := 0 }
    -- with `max_len` 0 the call only sets the length
    match env.recvFrame io wsPkt 0 with
    | (err, wsPkt, io) =>
      if err ≠ espOk then ⟨espFail, wsFds, io, none⟩
      else
        match env.malloc io (wsPkt.len + 1) with
        | (none, io) => ⟨espErrNoMem, wsFds, io, none⟩
        | (some block, io) =>
          match env.recvFrame io { wsPkt with payload := some block } wsPkt.len with
          | (err, wsPkt, io) =>
            if err ≠ espOk then ⟨espFail, wsFds, io, none⟩
            else
              -- `ws_pkt.payload[ws_pkt.len] = '\0'`
              let msg := { wsPkt with payload := wsPkt.payload.map (·.set wsPkt.len.toNat 0) }
              ⟨espOk, wsStore wsFds sockfd, io, some msg⟩

/-- A data frame reaches the handler with the method field cleared. -/
def dataMethod : HttpMethod := .other 0

/-! ## `http_ui_start` -/

/-- How starting the server goes: `httpd_start`, and room for the n-th registration. -/
structure HttpdEnv where
  start : EspErr := espOk
  room : Fin 3 → Bool := fun _ => true

def anyStatic : HttpdUri Handler :=
  { uri := "/*", method := .get, handler := .staticGetHandler }

def relays : HttpdUri Handler :=
  { uri := "/api/relays", method := .post, handler := .relaysPostHandler }

def ws : HttpdUri Handler :=
  { uri := "/ws", method := .get, handler := .wsHandler, isWebsocket := true }

/-- `http_ui_start`: the results of the three registrations are ignored. -/
def httpUiStart (env : HttpdEnv) (ui : HttpUi) : HttpUi :=
  if ui.sServer.isSome then ui
  else if env.start ≠ espOk then ui
  else
    let server : Httpd WsFds Handler := { config := httpdDefaultConfig WsFds, handlers := [] }
    -- static files, the relay API, the WebSocket endpoint
    let server := (server.register (env.room 0) anyStatic).2
    let server := (server.register (env.room 1) relays).2
    let server := (server.register (env.room 2) ws).2
    { ui with sServer := some server }

/-! ## `http_ui_broadcast_json` -/

/-- An attempted send: the socket, the frame and the result. -/
structure WsSend where
  sock : ℤ
  frame : WsFrame
  ret : EspErr
deriving DecidableEq

/-- The frame a broadcast sends. -/
def broadcastFrame (json : List UInt8) (len : UInt32) : WsFrame :=
  { type := .text, payload := some json, len := len }

/-- The loop body at slot `i`; `send i` is the result of the send made there. -/
def broadcastSlot (wsPkt : WsFrame) (send : Fin maxClients → EspErr) (acc : WsFds × List WsSend)
    (i : Fin maxClients) : WsFds × List WsSend :=
  if acc.1 i ≠ 0 then
    let sock := acc.1 i
    let ret := send i
    -- on a failure, remove the dead client
    (if ret ≠ espOk then Function.update acc.1 i 0 else acc.1, acc.2 ++ [⟨sock, wsPkt, ret⟩])
  else acc

/-- `http_ui_broadcast_json`: the state after it and the sends it attempted. -/
def httpUiBroadcastJson (json : List UInt8) (len : UInt32) (send : Fin maxClients → EspErr)
    (ui : HttpUi) : HttpUi × List WsSend :=
  match ui.sServer with
  | none => (ui, [])
  | some _ =>
    let r := (List.finRange maxClients).foldl (broadcastSlot (broadcastFrame json len) send)
      (ui.wsFds, [])
    ({ ui with wsFds := r.1 }, r.2)

end Boatdash
