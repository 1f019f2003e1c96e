import Boatdash.Lib.Machine
import Boatdash.Lib.Slots
import Boatdash.Spec.HttpUi

/-!
# Calls and sessions

Two machines over `http_ui.c`, one call an event.

* `uiMachine`: data frames and broadcasts, on the file's own state.
* `netMachine`: the sessions of the server as well: they open, complete the WebSocket
  handshake, send data frames and close, and a socket number is used again. The server
  closes the session of a call that returned an error, and calls `close_fn` if it is set.

A call's outside results are arguments of its event. One call of `ws_handler` tells its
two `httpd_ws_recv_frame` calls apart by the frame it passes, so functions without a
state give every pair of results.
-/

namespace Boatdash

/-- A call into the file. -/
inductive UiEvent
  | frame (fd : ℤ) (env : WsEnv Unit)
  | broadcast (json : List UInt8) (len : UInt32) (send : Fin maxClients → EspErr)

/-- What a call shows: a handler's result, a broadcast's sends. -/
inductive CallOut
  | silent
  | returned (ret : EspErr)
  | sent (sends : List WsSend)

/-- The sends of a call. -/
def CallOut.sends : CallOut → List WsSend
  | .sent sends => sends
  | _ => []

def HttpUi.step (ui : HttpUi) : UiEvent → HttpUi
  | .frame fd env => { ui with wsFds := (wsHandler env () dataMethod fd ui.wsFds).wsFds }
  | .broadcast json len send => (httpUiBroadcastJson json len send ui).1

def HttpUi.out (ui : HttpUi) : UiEvent → CallOut
  | .frame fd env => .returned (wsHandler env () dataMethod fd ui.wsFds).ret
  | .broadcast json len send => .sent (httpUiBroadcastJson json len send ui).2

/-- Calls of `ws_handler` with a data frame and of `http_ui_broadcast_json`. -/
def uiMachine : Machine HttpUi UiEvent CallOut := ⟨HttpUi.step, HttpUi.out⟩

@[simp] theorem uiMachine_step (ui : HttpUi) (e : UiEvent) : uiMachine.step ui e = ui.step e := rfl

@[simp] theorem uiMachine_out (ui : HttpUi) (e : UiEvent) : uiMachine.out ui e = ui.out e := rfl

/-- The results with which a data frame is received: both calls succeed, and `malloc`. -/
def WsEnv.Delivers (env : WsEnv Unit) : Prop :=
  let r := env.recvFrame () { type := .text, payload := none, len := 0 } 0
  r.1 = espOk ∧ ∃ block, (env.malloc () (r.2.1.len + 1)).1 = some block ∧
    (env.recvFrame () { r.2.1 with payload := some block } r.2.1.len).1 = espOk

/-- A two-byte text frame, received into the block `malloc` gave. -/
def helloEnv : WsEnv Unit where
  recvFrame _ pkt _ := (espOk, { pkt with len := 2 }, ())
  malloc _ size := (some (List.replicate size.toNat 0), ())

/-! ## Sessions -/

/-- The file's state and the sessions by socket number: the open ones, those that completed
the handshake, and those whose number was still in `ws_fds` when they opened. -/
structure World where
  ui : HttpUi
  live : Finset ℤ := ∅
  up : Finset ℤ := ∅
  heirs : Finset ℤ := ∅

/-- The server has started and no session is open. -/
def World.start : World := { ui := httpUiStart {} {} }

/-- What can happen to the server. -/
inductive NetEvent
  | opened (fd : ℤ)
  | handshake (fd : ℤ) (env : WsEnv Unit)
  | frame (fd : ℤ) (env : WsEnv Unit)
  | closed (fd : ℤ)
  | broadcast (json : List UInt8) (len : UInt32) (send : Fin maxClients → EspErr)

/-- A session closes: the server calls `close_fn` if the configuration has one. -/
def World.close (w : World) (fd : ℤ) : World :=
  { ui := match w.ui.sServer.bind (·.config.closeFn) with
      | some closeFn => { w.ui with wsFds := closeFn fd w.ui.wsFds }
      | none => w.ui
    live := w.live.erase fd
    up := w.up.erase fd
    heirs := w.heirs.erase fd }

/-- The server acts on the result of a call of `ws_handler`. -/
def World.returned (w : World) (fd : ℤ) (r : WsOutcome Unit) : World :=
  let w : World := { w with ui := { w.ui with wsFds := r.wsFds } }
  -- an error makes the server close the session
  if r.ret = espOk then w else w.close fd

def World.step (w : World) : NetEvent → World
  | .opened fd =>
    -- `heirs` only observes: no code looks the number up in `ws_fds` here
    { w with live := insert fd w.live
             heirs := if fd ∈ Slots.members 0 w.ui.wsFds then insert fd w.heirs else w.heirs }
  | .handshake fd env =>
    { w with up := insert fd w.up }.returned fd (wsHandler env () .get fd w.ui.wsFds)
  | .frame fd env => w.returned fd (wsHandler env () dataMethod fd w.ui.wsFds)
  | .closed fd => w.close fd
  | .broadcast json len send => { w with ui := (httpUiBroadcastJson json len send w.ui).1 }

def World.out (w : World) : NetEvent → CallOut
  | .handshake fd env => .returned (wsHandler env () .get fd w.ui.wsFds).ret
  | .frame fd env => .returned (wsHandler env () dataMethod fd w.ui.wsFds).ret
  | .broadcast json len send => .sent (httpUiBroadcastJson json len send w.ui).2
  | _ => .silent

/-- The server with its sessions. -/
def netMachine : Machine World NetEvent CallOut := ⟨World.step, World.out⟩

@[simp] theorem netMachine_step (w : World) (e : NetEvent) : netMachine.step w e = w.step e := rfl

@[simp] theorem netMachine_out (w : World) (e : NetEvent) : netMachine.out w e = w.out e := rfl

/-- What the server allows: a number is used by one session at a time and is not `0`, and a
data frame is dispatched only on a session that completed the handshake. -/
def World.ok (w : World) : NetEvent → Prop
  | .opened fd => fd ≠ 0 ∧ fd ∉ w.live
  | .handshake fd _ => fd ∈ w.live ∧ fd ∉ w.up
  | .frame fd _ => fd ∈ w.up
  | .closed fd => fd ∈ w.live
  | .broadcast _ _ _ => True

instance (w : World) : (e : NetEvent) → Decidable (w.ok e)
  | .opened fd => inferInstanceAs (Decidable (fd ≠ 0 ∧ fd ∉ w.live))
  | .handshake fd _ => inferInstanceAs (Decidable (fd ∈ w.live ∧ fd ∉ w.up))
  | .frame fd _ => inferInstanceAs (Decidable (fd ∈ w.up))
  | .closed fd => inferInstanceAs (Decidable (fd ∈ w.live))
  | .broadcast _ _ _ => isTrue trivial

end Boatdash
