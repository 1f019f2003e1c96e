import Boatdash.Lib.Machine
import Boatdash.Lib.WebSocket
import Boatdash.Spec.HttpUi

/-!
# Frames on a connection

The bytes a client has queued, `httpd_ws_recv_frame` on them, and the server core: it reads
the first byte of a frame and calls `ws_handler`, and closes the session of a call that
returned an error. `linkMachine` has the calls, with `malloc` as each of them finds it.
-/

namespace Boatdash

open WebSocket

/-- `ESP_ERR_INVALID_SIZE`. -/
def espErrInvalidSize : EspErr := 0x104

/-- A client's text frame, with a length that is a `size_t`. -/
structure TextFrame extends ClientFrame where
  size : payload.length < 2 ^ 32

/-- The frames as they are queued. -/
def stream (frames : List TextFrame) : List UInt8 := frames.flatMap (·.encode)

/-- A connection: the bytes queued, the key of the header read last, and the size of the block
`malloc` gave last. -/
structure Conn where
  input : List UInt8
  key : List UInt8 := []
  allocated : ℕ := 0
deriving DecidableEq

/-- `httpd_ws_recv_frame`. A length of `0` means that the header is still to be read, and a
`max_len` of `0` that nothing else is. A read that finds too few bytes fails. -/
def httpdWsRecvFrame (c : Conn) (pkt : WsFrame) (maxLen : UInt32) : EspErr × WsFrame × Conn :=
  let header := if pkt.len = 0 then
      (readHeader c.input).map fun (n, key, rest) =>
        (UInt32.ofNat n, { c with key := key, input := rest })
    else some (pkt.len, c)
  match header with
  | none => (espFail, pkt, { c with input := [] })
  | some (len, c) =>
    let pkt := { pkt with len := len }
    if maxLen = 0 then (espOk, pkt, c)
    else if maxLen < len then (espErrInvalidSize, pkt, c)
    else
      match pkt.payload with
      | none => (espFail, pkt, c)
      | some block =>
        if c.input.length < len.toNat then (espFail, pkt, { c with input := [] })
        else
          let bytes := mask c.key (c.input.take len.toNat)
          (espOk, { pkt with payload := some (CString.store block bytes) },
            { c with input := c.input.drop len.toNat })

/-- `malloc` during one call: a block has the size asked for. -/
structure Heap where
  malloc : UInt32 → Option (List UInt8)
  size : ∀ n block, malloc n = some block → block.length = n.toNat

/-- What `ws_handler` calls, on a connection. -/
def connEnv (heap : Heap) : WsEnv Conn where
  recvFrame := httpdWsRecvFrame
  malloc c n :=
    match heap.malloc n with
    | none => (none, c)
    | some block => (some block, { c with allocated := block.length })

/-- The session as the core has it, with `ws_fds`. -/
structure Link where
  conn : Conn
  wsFds : WsFds
  isOpen : Bool := true

/-- The call of `ws_handler` for the next frame; none if the session is closed, or no byte is
queued. -/
def Link.call (fd : ℤ) (l : Link) (heap : Heap) : Option (WsOutcome Conn) :=
  match l.isOpen, l.conn.input with
  | true, _ :: rest =>
    some (wsHandler (connEnv heap) { l.conn with input := rest } dataMethod fd l.wsFds)
  | _, _ => none

def Link.step (fd : ℤ) (l : Link) (heap : Heap) : Link :=
  match l.call fd heap with
  | some r => { conn := r.io, wsFds := r.wsFds, isOpen := r.ret = espOk }
  | none => l

/-- The calls on one connection. -/
def linkMachine (fd : ℤ) : Machine Link Heap (Option (WsOutcome Conn)) :=
  ⟨Link.step fd, Link.call fd⟩

/-- A session on which the frames are queued. -/
def Link.queued (frames : List TextFrame) (wsFds : WsFds) : Link :=
  { conn := { input := stream frames }, wsFds := wsFds }

end Boatdash
