import Boatdash.Spec.Sessions

/-!
# Broadcasts that overlap

`http_ui_broadcast_json` runs on whatever task calls it, while the server's own task runs
`ws_handler`. Here a broadcast is a process of its own: it reads a slot and issues the send
in one step, and takes the send's result in a later one, where it clears the slot on a
failure. Between two steps of a broadcast, other broadcasts and the server may take any
number of theirs.

`time` and `heard` only observe: when a send was issued, and when `ws_handler` last
returned `ESP_OK` for a socket.
-/

namespace Boatdash

/-- A broadcast in progress. -/
inductive Sender
  /-- Before reading the first of `slots`; at the end of the loop if there is none. -/
  | reading (frame : WsFrame) (slots : List (Fin maxClients))
  /-- At `slot`, before the result of the send issued to `sock` in the step numbered `time`. -/
  | waiting (frame : WsFrame) (slot : Fin maxClients) (slots : List (Fin maxClients))
      (sock : ℤ) (time : ℕ)

/-- The server with its sessions, the broadcasts by process, the number of steps so far, and
for each socket the number of steps up to its last call of `ws_handler` that returned
`ESP_OK`. -/
structure Tasks where
  world : World
  senders : ℕ → Option Sender := fun _ => none
  now : ℕ := 0
  heard : ℤ → ℕ := fun _ => 0

/-- The server has started, no session is open and no broadcast runs. -/
def Tasks.start : Tasks := { world := .start }

/-- A step of the server's task, or of the broadcast `p`. -/
inductive TaskEvent
  | server (e : NetEvent)
  | call (p : ℕ) (json : List UInt8) (len : UInt32)
  | issue (p : ℕ)
  | result (p : ℕ) (ret : EspErr)

/-- The socket of a call of `ws_handler`. -/
def NetEvent.caller : NetEvent → Option ℤ
  | .handshake fd _ => some fd
  | .frame fd _ => some fd
  | _ => none

/-- `heard` after an event of the server. -/
def Tasks.hear (s : Tasks) (e : NetEvent) : ℤ → ℕ :=
  match e.caller, s.world.out e with
  | some fd, .returned ret =>
    if ret = espOk then Function.update s.heard fd (s.now + 1) else s.heard
  | _, _ => s.heard

def Tasks.setSender (s : Tasks) (p : ℕ) (b : Option Sender) : Tasks :=
  { s with senders := Function.update s.senders p b }

/-- `ws_fds[i] = 0`. -/
def Tasks.clear (s : Tasks) (i : Fin maxClients) : Tasks :=
  { s with world := { s.world with
      ui := { s.world.ui with wsFds := Function.update s.world.ui.wsFds i 0 } } }

/-- What a step does, without the clock. -/
def Tasks.act (s : Tasks) : TaskEvent → Tasks
  | .server e => { s with world := s.world.step e, heard := s.hear e }
  | .call p json len =>
    s.setSender p (s.world.ui.sServer.map fun _ =>
      .reading (broadcastFrame json len) (List.finRange maxClients))
  | .issue p =>
    match s.senders p with
    | some (.reading frame (i :: is)) =>
      let sock := s.world.ui.wsFds i
      -- a free slot is passed over in this step, with no send
      if sock ≠ 0 then s.setSender p (some (.waiting frame i is sock s.now))
      else s.setSender p (some (.reading frame is))
    | _ => s
  | .result p ret =>
    match s.senders p with
    | some (.waiting frame i is _ _) =>
      let s := s.setSender p (some (.reading frame is))
      -- by index: the slot may hold another socket by now
      if ret ≠ espOk then s.clear i else s
    | _ => s

def Tasks.step (s : Tasks) (e : TaskEvent) : Tasks := { s.act e with now := s.now + 1 }

/-- What a step shows: a send with its result. -/
def Tasks.out (s : Tasks) : TaskEvent → List WsSend
  | .result p ret =>
    match s.senders p with
    | some (.waiting frame _ _ sock _) => [⟨sock, frame, ret⟩]
    | _ => []
  | _ => []

/-- The server's task and the broadcasts, interleaved. -/
def taskMachine : Machine Tasks TaskEvent (List WsSend) := ⟨Tasks.step, Tasks.out⟩

@[simp] theorem taskMachine_step (s : Tasks) (e : TaskEvent) : taskMachine.step s e = s.step e :=
  rfl

@[simp] theorem taskMachine_out (s : Tasks) (e : TaskEvent) : taskMachine.out s e = s.out e := rfl

/-- What may happen: the server does what it may, its broadcasts are the processes, and a
process is started once. -/
def Tasks.ok (s : Tasks) : TaskEvent → Prop
  | .server (.broadcast _ _ _) => False
  | .server e => s.world.ok e
  | .call p _ _ => (s.senders p).isNone
  | _ => True

instance (s : Tasks) (e : TaskEvent) : Decidable (s.ok e) := by
  unfold Tasks.ok; split <;> infer_instance

end Boatdash
