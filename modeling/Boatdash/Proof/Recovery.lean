import Boatdash.Proof.Stale

/-!
# A broadcast rids the table of closed sessions

Nothing takes a socket out of `ws_fds` when its session closes, so the table can fill up with
sockets no session uses. A send to such a socket is rejected, and the broadcast clears its slot:
right after a broadcast every entry has an open session (`open_broadcast`), and this holds until a
session closes (`open_step`). `stored_after_broadcast`: **with at most `MAX_CLIENTS` sessions open
and none closed since the last broadcast, no data frame is received without its client being in
the table.**
-/

namespace Boatdash

open Slots

/-- Every entry of the table has an open session. -/
structure Current (w : World) : Prop extends Served w where
  zero : (0 : ℤ) ∉ w.live
  up : w.up ⊆ w.live
  table : members 0 w.ui.wsFds ⊆ w.live

/-- No session closes in the event. -/
def World.Stays (w : World) (e : NetEvent) : Prop := w.live ⊆ (w.step e).live

instance (w : World) (e : NetEvent) : Decidable (w.Stays e) :=
  inferInstanceAs (Decidable (w.live ⊆ (w.step e).live))

variable {w : World} {e : NetEvent} {fd : ℤ} {env : WsEnv Unit}

/-- `Current` less what it says of the table. -/
structure Listed (w : World) : Prop extends Served w where
  zero : (0 : ℤ) ∉ w.live
  up : w.up ⊆ w.live

theorem listed_step (h : Listed w) (hok : w.okSend e) : Listed (w.step e) := by
  have hs := served_step h.toServed e
  rcases sessions_step h.toServed e with
    ⟨fd, rfl, hl, hu⟩ | ⟨fd, env, rfl, hl, hu⟩ | ⟨fd, hl, hu⟩ | ⟨hl, hu⟩
  · refine ⟨hs, ?_, ?_⟩
    · rw [hl, Finset.mem_insert, not_or]
      exact ⟨Ne.symm hok.1, h.zero⟩
    · rw [hl, hu]; exact h.up.trans (Finset.subset_insert fd w.live)
  · refine ⟨hs, ?_, ?_⟩
    · rw [hl]; exact h.zero
    · rw [hl, hu]; exact Finset.insert_subset hok.1 h.up
  · refine ⟨hs, ?_, ?_⟩
    · rw [hl]; exact mt Finset.mem_of_mem_erase h.zero
    · rw [hl, hu]; exact Finset.erase_subset_erase fd h.up
  · refine ⟨hs, ?_, ?_⟩
    · rw [hl]; exact h.zero
    · rw [hl, hu]; exact h.up

/-- **A run.** -/
theorem listed_run {es : List NetEvent} (h : netMachine.Along World.okSend .start es) :
    Listed (netMachine.run .start es) :=
  Machine.run_inv (I := Listed) (fun _ _ hI hok => listed_step hI hok) es _
    ⟨served_start, Finset.notMem_empty 0, Finset.Subset.refl _⟩ h

/-- **A broadcast** leaves no entry of a closed session. -/
theorem open_broadcast (h : Listed w) {json : List UInt8} {len : UInt32}
    {send : Fin maxClients → EspErr} (hok : w.okSend (.broadcast json len send)) :
    Current (w.step (.broadcast json len send)) := by
  have hs := served_step h.toServed (.broadcast json len send)
  rw [step_broadcast h.toServed] at hs ⊢
  refine ⟨hs, h.zero, h.up, ?_⟩
  intro x hx
  obtain ⟨hx0, i, rfl⟩ := mem_members.1 hx
  -- the slot is used still, so its send was accepted
  have hsame : sweep send w.ui.wsFds i = w.ui.wsFds i :=
    (sweep_slot send w.ui.wsFds i).resolve_right hx0
  have hret : send i = espOk := by
    by_contra hno
    have hclear : sweep send w.ui.wsFds i = 0 := if_pos ⟨hsame ▸ hx0, hno⟩
    exact hx0 hclear
  show sweep send w.ui.wsFds i ∈ w.live
  rw [hsame]
  exact hok i (hsame ▸ hx0) hret

/-- **An event in which no session closes.** -/
theorem open_step (h : Current w) (hok : w.okSend e) (hstays : w.Stays e) :
    Current (w.step e) := by
  obtain ⟨hs, hzero, hup⟩ := listed_step ⟨h.toServed, h.zero, h.up⟩ hok
  refine ⟨hs, hzero, hup, ?_⟩
  cases e with
  | opened fd =>
    rw [step_opened]
    exact h.table.trans (Finset.subset_insert fd w.live)
  | handshake fd env => rw [step_handshake]; exact h.table
  | frame fd env =>
    have hfd : fd ∈ w.live := h.up hok
    rcases step_frame w fd env with ⟨-, -, hs⟩ | ⟨-, -, hs⟩
    · rw [hs]; exact wsStore_sub.trans (Finset.insert_subset hfd h.table)
    · -- an error would close the session
      have hgone : fd ∈ (w.step (.frame fd env)).live := hstays hfd
      rw [hs, close_eq h.toServed] at hgone
      exact absurd rfl (Finset.ne_of_mem_erase hgone)
  | closed fd =>
    have hgone : fd ∈ (w.close fd).live := hstays hok
    rw [close_eq h.toServed] at hgone
    exact absurd rfl (Finset.ne_of_mem_erase hgone)
  | broadcast json len send =>
    exact (open_broadcast ⟨h.toServed, h.zero, h.up⟩ hok).table

/-- With room for every open session, a data frame that is received stores its socket. -/
theorem stored_of_current (h : Current w) (hup : fd ∈ w.up)
    (hroom : w.live.card ≤ maxClients) (hd : env.Delivers) :
    fd ∈ members 0 (w.step (.frame fd env)).ui.wsFds := by
  have hfd : fd ≠ 0 := by
    rintro rfl
    exact h.zero (h.up hup)
  rcases step_frame w fd env with ⟨-, -, hs⟩ | ⟨hno, -⟩
  · rw [hs]
    show fd ∈ members 0 (wsStore w.ui.wsFds fd)
    rw [mem_wsStore hfd]
    by_cases hm : fd ∈ members 0 w.ui.wsFds
    · left; exact hm
    · right
      -- the entries are among the other open sessions
      have hsub : members 0 w.ui.wsFds ⊆ w.live.erase fd := by
        intro x hx
        refine Finset.mem_erase.2 ⟨?_, h.table hx⟩
        rintro rfl
        exact hm hx
      have hle := Finset.card_le_card hsub
      have hlive : fd ∈ w.live := h.up hup
      rw [Finset.card_erase_of_mem hlive] at hle
      have hpos : 0 < w.live.card := Finset.card_pos.2 ⟨fd, hlive⟩
      exact (card_lt_iff h.distinct).1 (by omega)
  · exact absurd hd hno

/-- **After a broadcast**: as long as no session closes and at most `MAX_CLIENTS` are open, a data
frame that is received stores its socket, however many closed sessions the table held before. -/
theorem stored_after_broadcast (pre mid : List NetEvent) (json : List UInt8) (len : UInt32)
    (send : Fin maxClients → EspErr) (fd : ℤ) (env : WsEnv Unit)
    (hok : netMachine.Along World.okSend .start
      (pre ++ .broadcast json len send :: (mid ++ [.frame fd env])))
    (hstays : netMachine.Along World.Stays
      (netMachine.run .start (pre ++ [.broadcast json len send])) mid)
    (hroom : (netMachine.run .start (pre ++ .broadcast json len send :: mid)).live.card ≤ maxClients)
    (hd : env.Delivers) :
    fd ∈ members 0 (netMachine.run .start
      (pre ++ .broadcast json len send :: (mid ++ [.frame fd env]))).ui.wsFds := by
  obtain ⟨hpre, hb, hrest⟩ := Machine.along_append.1 hok
  obtain ⟨hmid, hframe, -⟩ := Machine.along_append.1 hrest
  have hafter := open_broadcast (listed_run hpre) hb
  rw [Machine.run_append] at hstays hroom
  rw [Machine.run_append, Machine.run_cons, Machine.run_append]
  set w := (netMachine.run .start pre).step (.broadcast json len send)
  have hboth : netMachine.Along (fun w e => w.okSend e ∧ w.Stays e) w mid := by
    rw [Machine.along_iff] at hmid hstays ⊢
    exact fun a e b hsplit => ⟨hmid a e b hsplit, hstays a e b hsplit⟩
  have hcur : Current (netMachine.run w mid) :=
    Machine.run_inv (I := Current) (fun _ _ hI h => open_step hI h.1 h.2) mid w hafter hboth
  exact stored_of_current hcur hframe hroom hd

/-- A dashboard for each socket number from `54` on: it registers and closes. -/
def passed : List NetEvent :=
  (List.range maxClients).flatMap fun k =>
    [.opened (54 + k), .handshake (54 + k) helloEnv, .frame (54 + k) helloEnv, .closed (54 + k)]

/-- After a broadcast a new client finds a slot in the table those dashboards had filled. -/
theorem stored_after_broadcast_new :
    99 ∈ members 0 (netMachine.run .start (passed ++ .broadcast [123, 125] 2 (fun _ => espFail) ::
      ([.opened 99, .handshake 99 helloEnv] ++ [.frame 99 helloEnv]))).ui.wsFds :=
  stored_after_broadcast passed [.opened 99, .handshake 99 helloEnv] [123, 125] 2
    (fun _ => espFail) 99 helloEnv (by decide) (by decide) (by decide) ⟨rfl, _, rfl, rfl⟩

end Boatdash
