import Boatdash.Proof.Sessions

/-!
# Telemetry on sockets that are not WebSockets

A session that closes stays in `ws_fds` until a send to it fails, and the next session may
get its number. `World.heirs` are the open sessions that opened on a number still in the
table. `telemetry_only_ws`: **as long as every such session has completed the handshake
when a broadcast is made, accepted frames go to WebSocket clients only; and in a run that
makes a broadcast before that, the server accepting what it may, they do not.**
-/

namespace Boatdash

open Slots

/-- What the server allows, with `httpd_ws_send_frame_async` as assumed: a send to a socket
without an open session is rejected, any other may be accepted. -/
def World.okSend (w : World) : NetEvent → Prop
  | .broadcast _ _ send => ∀ i, w.ui.wsFds i ≠ 0 → send i = espOk → w.ui.wsFds i ∈ w.live
  | e => w.ok e

instance (w : World) : (e : NetEvent) → Decidable (w.okSend e)
  | .opened fd => inferInstanceAs (Decidable (w.ok (.opened fd)))
  | .handshake fd env => inferInstanceAs (Decidable (w.ok (.handshake fd env)))
  | .frame fd env => inferInstanceAs (Decidable (w.ok (.frame fd env)))
  | .closed fd => inferInstanceAs (Decidable (w.ok (.closed fd)))
  | .broadcast _ _ send =>
    inferInstanceAs (Decidable (∀ i, w.ui.wsFds i ≠ 0 → send i = espOk →
      w.ui.wsFds i ∈ w.live))

/-- **Frames reach WebSocket clients only**: a socket whose send is accepted has an open
session that completed the handshake. -/
def World.OnlyWs (w : World) (e : NetEvent) : Prop :=
  ∀ s ∈ (w.out e).sends, s.ret = espOk → s.sock ∈ w.live ∧ s.sock ∈ w.up

/-- A broadcast is made while every open session on a number that `ws_fds` held when it
opened, and still holds, has completed the handshake. -/
def World.NoHeir (w : World) : NetEvent → Prop
  | .broadcast _ _ _ => ∀ fd ∈ w.heirs, fd ∈ members 0 w.ui.wsFds → fd ∈ w.up
  | _ => True

instance (w : World) (e : NetEvent) : Decidable (w.OnlyWs e) := by
  unfold World.OnlyWs; infer_instance

instance (w : World) : (e : NetEvent) → Decidable (w.NoHeir e)
  | .broadcast _ _ _ =>
    inferInstanceAs (Decidable (∀ fd ∈ w.heirs, fd ∈ members 0 w.ui.wsFds → fd ∈ w.up))
  | .opened _ | .handshake _ _ | .frame _ _ | .closed _ => isTrue trivial

/-- An entry of the table with an open session is a WebSocket client or an heir. -/
structure Traced (w : World) : Prop extends Served w where
  heirs : w.heirs ⊆ w.live
  table : ∀ fd ∈ members 0 w.ui.wsFds, fd ∈ w.live → fd ∈ w.up ∨ fd ∈ w.heirs

variable {w : World}

theorem traced_close (h : Traced w) (fd : ℤ) : Traced (w.close fd) := by
  have hs := served_close h.toServed fd
  have hheirs : w.heirs.erase fd ⊆ w.live.erase fd := Finset.erase_subset_erase fd h.heirs
  rw [close_eq h.toServed] at hs ⊢
  refine ⟨hs, hheirs, ?_⟩
  intro x hx hlive
  obtain ⟨hne, hlive⟩ := Finset.mem_erase.1 hlive
  rcases h.table x hx hlive with hup | hheir
  · left; exact Finset.mem_erase.2 ⟨hne, hup⟩
  · right; exact Finset.mem_erase.2 ⟨hne, hheir⟩

/-- **One event.** -/
theorem traced_step (h : Traced w) {e : NetEvent} (he : w.okSend e) : Traced (w.step e) := by
  have hs := served_step h.toServed e
  cases e with
  | opened fd =>
    rw [step_opened] at hs ⊢
    by_cases hm : fd ∈ members 0 w.ui.wsFds
    · -- the new session is on a number still in the table
      rw [if_pos hm] at hs ⊢
      refine ⟨hs, Finset.insert_subset_insert fd h.heirs, ?_⟩
      intro x hx hlive
      rcases Finset.mem_insert.1 hlive with rfl | hlive
      · right; exact Finset.mem_insert_self x w.heirs
      · rcases h.table x hx hlive with hup | hheir
        · left; exact hup
        · right; exact Finset.mem_insert_of_mem hheir
    · rw [if_neg hm] at hs ⊢
      refine ⟨hs, h.heirs.trans (Finset.subset_insert fd w.live), ?_⟩
      intro x hx hlive
      rcases Finset.mem_insert.1 hlive with rfl | hlive
      · exact absurd hx hm
      · exact h.table x hx hlive
  | handshake fd env =>
    rw [step_handshake] at hs ⊢
    refine ⟨hs, h.heirs, ?_⟩
    intro x hx hlive
    rcases h.table x hx hlive with hup | hheir
    · left; exact Finset.mem_insert_of_mem hup
    · right; exact hheir
  | frame fd env =>
    rcases step_frame w fd env with ⟨-, -, hst⟩ | ⟨-, -, hst⟩
    · rw [hst] at hs ⊢
      refine ⟨hs, h.heirs, ?_⟩
      intro x hx hlive
      rcases Finset.mem_insert.1 (wsStore_sub hx) with rfl | hx
      · -- the sender of a data frame completed the handshake
        exact Or.inl he
      · exact h.table x hx hlive
    · rw [hst]; exact traced_close h fd
  | closed fd => exact traced_close h fd
  | broadcast json len send =>
    have hsub : members 0 (sweep send w.ui.wsFds) ⊆ members 0 w.ui.wsFds :=
      members_sub (sweep_slot send w.ui.wsFds)
    rw [step_broadcast h.toServed] at hs ⊢
    exact ⟨hs, h.heirs, fun x hx => h.table x (hsub hx)⟩

theorem traced_start : Traced .start :=
  ⟨served_start, Finset.Subset.refl _, fun fd _ hlive => absurd hlive (Finset.notMem_empty fd)⟩

/-- **A run.** -/
theorem traced_run {es : List NetEvent} (h : netMachine.Along World.okSend .start es) :
    Traced (netMachine.run .start es) :=
  Machine.run_inv (I := Traced) (fun _ _ hI hok => traced_step hI hok) es _ traced_start h

/-- An accepted send without an heir goes to a WebSocket client. -/
theorem onlyWs_of_noHeir (h : Traced w) {e : NetEvent} (hok : w.okSend e) (hno : w.NoHeir e) :
    w.OnlyWs e := by
  intro s hs hret
  cases e with
  | broadcast json len send =>
    rw [out_broadcast h.toServed] at hs
    obtain ⟨i, hi, rfl⟩ := mem_sendsOf.1 hs
    have hmem : w.ui.wsFds i ∈ members 0 w.ui.wsFds := mem_members_slot hi
    have hlive : w.ui.wsFds i ∈ w.live := hok i hi hret
    rcases h.table _ hmem hlive with hup | hheir
    · exact ⟨hlive, hup⟩
    · exact ⟨hlive, hno _ hheir hmem⟩
  | _ => exact absurd hs List.not_mem_nil

/-- The results of a broadcast whose sends the server accepts as far as it may. -/
def World.acceptAll (w : World) : Fin maxClients → EspErr :=
  fun i => if w.ui.wsFds i ∈ w.live then espOk else espFail

theorem acceptAll_ok (w : World) (json : List UInt8) (len : UInt32) :
    w.okSend (.broadcast json len w.acceptAll) := by
  intro i _ hi
  unfold World.acceptAll at hi
  split at hi
  · assumption
  · exact absurd hi (by decide)

/-- With an heir, the broadcast the server accepts reaches it. -/
theorem heir_reached (h : Traced w) {json : List UInt8} {len : UInt32}
    {send : Fin maxClients → EspErr} (hheir : ¬ w.NoHeir (.broadcast json len send)) :
    ¬ w.OnlyWs (.broadcast json len w.acceptAll) := by
  unfold World.NoHeir at hheir
  push Not at hheir
  obtain ⟨fd, hfd, hmem, hup⟩ := hheir
  obtain ⟨hfd0, i, rfl⟩ := mem_members.1 hmem
  have hacc : w.acceptAll i = espOk := if_pos (h.heirs hfd)
  have hsent : ⟨w.ui.wsFds i, broadcastFrame json len, w.acceptAll i⟩ ∈
      (w.out (.broadcast json len w.acceptAll)).sends := by
    rw [out_broadcast h.toServed]
    exact mem_sendsOf.2 ⟨i, hfd0, rfl⟩
  intro honly
  exact hup (honly _ hsent hacc).2

/-- **Telemetry goes to WebSocket clients only, exactly without heirs.** A run whose
broadcasts all meet the condition keeps the property; where a run breaks the condition,
the same broadcast, accepted as far as the server may, breaks the property. -/
theorem telemetry_only_ws (es : List NetEvent) (h : netMachine.Along World.okSend .start es) :
    (netMachine.Along World.NoHeir .start es → netMachine.Along World.OnlyWs .start es) ∧
      ∀ pre json len send post, es = pre ++ .broadcast json len send :: post →
        ¬ (netMachine.run .start pre).NoHeir (.broadcast json len send) →
        ∃ send', netMachine.Along World.okSend .start (pre ++ [.broadcast json len send']) ∧
          ¬ netMachine.Along World.OnlyWs .start (pre ++ [.broadcast json len send']) := by
  constructor
  · intro hno
    rw [Machine.along_iff]
    rintro pre e post rfl
    have hw := traced_run h.left
    have hok := Machine.along_iff.1 h pre e post rfl
    exact onlyWs_of_noHeir hw hok (Machine.along_iff.1 hno pre e post rfl)
  · rintro pre json len send post rfl hheir
    have hpre := h.left
    have hreached := heir_reached (traced_run hpre) hheir
    have hallowed := acceptAll_ok (netMachine.run .start pre) json len
    refine ⟨_, Machine.along_append.2 ⟨hpre, hallowed, trivial⟩, ?_⟩
    intro honly
    exact hreached (Machine.along_append.1 honly).2.1

/-- A client registers and closes, and the next session gets its number. -/
def reused : List NetEvent :=
  [.opened 54, .handshake 54 helloEnv, .frame 54 helloEnv, .closed 54, .opened 54]

/-- Once the new session has completed the handshake, a broadcast is in order. -/
theorem telemetry_only_ws_upgraded :
    netMachine.Along World.OnlyWs .start
      (reused ++ [.handshake 54 helloEnv, .broadcast [123, 125] 2 fun _ => espOk]) :=
  (telemetry_only_ws _ (by decide)).1 (by decide)

/-- **A browser on the number of a dashboard that left** receives the next broadcast. -/
theorem telemetry_to_browser :
    ¬ ∀ es, netMachine.Along World.okSend .start es → netMachine.Along World.OnlyWs .start es := by
  intro h
  exact absurd (h (reused ++ [.broadcast [123, 125] 2 fun _ => espOk]) (by decide)) (by decide)

end Boatdash
