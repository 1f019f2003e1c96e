import Boatdash.Proof.Table
import Boatdash.Spec.Sessions

/-!
# One event of the server with its sessions

`http_ui_start` sets no `close_fn`, so a session that closes leaves `ws_fds` alone. Each
event is given once as an equation on the world (`close_eq`, `step_opened`,
`step_handshake`, `step_frame`, `step_broadcast`), and `sessions_step` says what it does to the
sessions. `Served` is what every event keeps, whatever the order and the results.
-/

namespace Boatdash

open Slots

/-- The server runs without a `close_fn`, and the table has no repetitions. -/
structure Served (w : World) : Prop where
  running : w.ui.sServer.isSome
  noClose : w.ui.sServer.bind (·.config.closeFn) = none
  distinct : Distinct 0 w.ui.wsFds

theorem served_start : Served .start := ⟨rfl, rfl, distinct_empty⟩

variable {w : World} {fd : ℤ} {env : WsEnv Unit}

theorem delivers_iff (env : WsEnv Unit) (fd : ℤ) (t : WsFds) :
    (wsHandler env () dataMethod fd t).ret = espOk ↔ env.Delivers := by
  have hm : dataMethod ≠ .get := by decide
  have hfail : espFail ≠ espOk := by decide
  have hmem : espErrNoMem ≠ espOk := by decide
  unfold wsHandler WsEnv.Delivers
  rw [if_neg hm]
  simp only
  split
  · rename_i h; exact iff_of_false hfail fun hd => h hd.1
  rename_i h₁
  rw [not_not] at h₁
  -- the length is received: what `malloc` gives decides
  cases hb : env.malloc () ((env.recvFrame () ⟨.text, none, 0⟩ 0).2.1.len + 1) with
  | mk m _ =>
    cases m with
    | none => exact iff_of_false hmem fun ⟨_, _, hd, _⟩ => by simp at hd
    | some block =>
      simp only
      split
      · rename_i h
        apply iff_of_false hfail
        rintro ⟨-, block', hd, h'⟩
        cases hd
        exact h h'
      · rename_i h
        rw [not_not] at h
        exact iff_of_true rfl ⟨h₁, block, rfl, h⟩

/-! ## The events -/

/-- A close without a `close_fn`: the table stays. -/
theorem close_eq (h : Served w) (fd : ℤ) :
    w.close fd =
      { w with live := w.live.erase fd, up := w.up.erase fd, heirs := w.heirs.erase fd } := by
  unfold World.close; rw [h.noClose]

theorem step_opened : w.step (.opened fd) =
    { w with live := insert fd w.live
             heirs := if fd ∈ members 0 w.ui.wsFds then insert fd w.heirs else w.heirs } := by
  simp only [World.step]

theorem step_handshake : w.step (.handshake fd env) = { w with up := insert fd w.up } := by
  simp only [World.step, World.returned, wsHandler_get, if_true]

/-- A data frame is received and its socket stored, or the session closes. -/
theorem step_frame (w : World) (fd : ℤ) (env : WsEnv Unit) :
    (env.Delivers ∧ w.out (.frame fd env) = .returned espOk ∧
      w.step (.frame fd env) = { w with ui := { w.ui with wsFds := wsStore w.ui.wsFds fd } }) ∨
    (¬ env.Delivers ∧ w.out (.frame fd env) ≠ .returned espOk ∧
      w.step (.frame fd env) = w.close fd) := by
  rcases wsHandler_cases env () fd w.ui.wsFds with ⟨hret, htab⟩ | ⟨hret, htab⟩
  · left
    refine ⟨(delivers_iff _ _ _).1 hret, by simp only [World.out, hret], ?_⟩
    simp only [World.step, World.returned, if_pos hret, htab]
  · right
    refine ⟨fun hd => hret ((delivers_iff _ _ _).2 hd), ?_, ?_⟩
    · simp only [World.out, ne_eq, CallOut.returned.injEq]; exact hret
    · simp only [World.step, World.returned, if_neg hret, htab]

variable {json : List UInt8} {len : UInt32} {send : Fin maxClients → EspErr}

theorem step_broadcast (h : Served w) : w.step (.broadcast json len send) =
    { w with ui := { w.ui with wsFds := sweep send w.ui.wsFds } } := by
  simp only [World.step, broadcast_eq h.running]

theorem out_broadcast (h : Served w) : w.out (.broadcast json len send) =
    .sent (sendsOf (broadcastFrame json len) send w.ui.wsFds) := by
  simp only [World.out, broadcast_eq h.running]

/-- **The sessions after an event**: one has opened, has completed the handshake or has
closed, or they are as before. -/
theorem sessions_step (h : Served w) (e : NetEvent) :
    (∃ fd, e = .opened fd ∧ (w.step e).live = insert fd w.live ∧ (w.step e).up = w.up) ∨
      (∃ fd env, e = .handshake fd env ∧ (w.step e).live = w.live ∧
        (w.step e).up = insert fd w.up) ∨
      (∃ fd, (w.step e).live = w.live.erase fd ∧ (w.step e).up = w.up.erase fd) ∨
      ((w.step e).live = w.live ∧ (w.step e).up = w.up) := by
  have hclose : ∀ fd, (w.close fd).live = w.live.erase fd ∧ (w.close fd).up = w.up.erase fd := by
    intro fd
    rw [close_eq h]; exact ⟨rfl, rfl⟩
  cases e with
  | opened fd => left; exact ⟨fd, rfl, rfl, rfl⟩
  | handshake fd env => right; left; rw [step_handshake]; exact ⟨fd, env, rfl, rfl, rfl⟩
  | frame fd env =>
    right; right
    rcases step_frame w fd env with ⟨-, -, hs⟩ | ⟨-, -, hs⟩
    · right; rw [hs]; exact ⟨rfl, rfl⟩
    · left; rw [hs]; exact ⟨fd, hclose fd⟩
  | closed fd => right; right; left; exact ⟨fd, hclose fd⟩
  | broadcast json len send => right; right; right; rw [step_broadcast h]; exact ⟨rfl, rfl⟩

/-! ## What every event keeps -/

theorem served_close (h : Served w) (fd : ℤ) : Served (w.close fd) := by
  rw [close_eq h]; exact ⟨h.running, h.noClose, h.distinct⟩

theorem served_step (h : Served w) (e : NetEvent) : Served (w.step e) := by
  cases e with
  | opened fd => exact ⟨h.running, h.noClose, h.distinct⟩
  | handshake fd env => rw [step_handshake]; exact ⟨h.running, h.noClose, h.distinct⟩
  | frame fd env =>
    rcases step_frame w fd env with ⟨-, -, hs⟩ | ⟨-, -, hs⟩
    · rw [hs]; exact ⟨h.running, h.noClose, distinct_wsStore h.distinct⟩
    · rw [hs]; exact served_close h fd
  | closed fd => exact served_close h fd
  | broadcast json len send =>
    rw [step_broadcast h]; exact ⟨h.running, h.noClose, distinct_sweep h.distinct⟩

theorem served_run (h : Served w) (es : List NetEvent) : Served (netMachine.run w es) := by
  induction es generalizing w with
  | nil => exact h
  | cons e es ih => exact ih (served_step h e)

end Boatdash
