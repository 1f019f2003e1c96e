import Boatdash.Proof.Sessions

/-!
# Which dashboards a broadcast reaches

`ws_handler` stores a socket when a data frame arrives, not at the handshake, and only if
a slot is free. `every_broadcast_iff`: **a connected dashboard is sent every broadcast
exactly when its number was in `ws_fds` at the handshake, or it has since sent a frame that
was received while a slot was free.** One that only listens, or that connects while the
table is full of entries nobody cleared, is sent nothing.
-/

namespace Boatdash

open Slots

/-- Over `mid` the session on `fd` stays open and no send to it fails. -/
def Stays (fd : ℤ) (w : World) (mid : List NetEvent) : Prop :=
  netMachine.Along (fun w e => fd ∈ (w.step e).live ∧ fd ∉ failedSocks (w.out e).sends) w mid

/-- In the run `es`, the handshake after `pre` succeeds for a session on `fd`, which stays
over `mid`, up to a broadcast. -/
structure Listens (es pre : List NetEvent) (fd : ℤ) (env : WsEnv Unit) (mid : List NetEvent)
    (json : List UInt8) (len : UInt32) (send : Fin maxClients → EspErr) : Prop where
  split : pre ++ .handshake fd env :: (mid ++ [.broadcast json len send]) <+: es
  handshake : (netMachine.run .start pre).out (.handshake fd env) = .returned espOk
  stays : Stays fd ((netMachine.run .start pre).step (.handshake fd env)) mid

/-- **Every connected dashboard receives every broadcast.** -/
def EveryBroadcast (es : List NetEvent) : Prop :=
  ∀ pre fd env mid json len send, Listens es pre fd env mid json len send →
    ∃ s ∈ ((netMachine.run .start (pre ++ .handshake fd env :: mid)).out
      (.broadcast json len send)).sends, s.sock = fd

/-- A frame from `fd` that is received while a slot is free. -/
def World.Registers (w : World) (fd : ℤ) (e : NetEvent) : Prop :=
  ∃ env, e = .frame fd env ∧ env.Delivers ∧ ∃ i, w.ui.wsFds i = 0

/-- Whoever listens was in the table at the handshake, or has registered since. -/
def Heard (es : List NetEvent) : Prop :=
  ∀ pre fd env mid json len send, Listens es pre fd env mid json len send →
    fd ∈ members 0 (netMachine.run .start pre).ui.wsFds ∨
      ∃ m e m', mid = m ++ e :: m' ∧
        (netMachine.run .start (pre ++ .handshake fd env :: m)).Registers fd e

variable {w : World} {fd : ℤ}

/-- **One event**: a socket enters the table by a frame that registers it, and leaves it by
a failed send. -/
theorem member_step (h : Served w) (hfd : fd ≠ 0) {e : NetEvent}
    (hno : fd ∉ failedSocks (w.out e).sends) :
    fd ∈ members 0 (w.step e).ui.wsFds ↔ fd ∈ members 0 w.ui.wsFds ∨ w.Registers fd e := by
  have hkeep : ∀ u : World, u.ui.wsFds = w.ui.wsFds → ¬ w.Registers fd e →
      (fd ∈ members 0 u.ui.wsFds ↔ fd ∈ members 0 w.ui.wsFds ∨ w.Registers fd e) := by
    intro u hu hr; rw [hu]; simp only [hr, or_false]
  cases e with
  | opened fd' => exact hkeep _ rfl (by rintro ⟨_, hf, _⟩; cases hf)
  | handshake fd' env =>
    rw [step_handshake]; exact hkeep _ rfl (by rintro ⟨_, hf, _⟩; cases hf)
  | closed fd' =>
    refine hkeep _ ?_ (by rintro ⟨_, hf, _⟩; cases hf)
    show (w.close fd').ui.wsFds = _
    rw [close_eq h]
  | frame fd' env =>
    rcases step_frame w fd' env with ⟨hd, -, hs⟩ | ⟨hd, -, hs⟩
    · rw [hs]
      by_cases hff : fd' = fd
      · subst hff
        rw [mem_wsStore hfd]
        exact or_congr_right ⟨fun hf => ⟨env, rfl, hd, hf⟩, fun ⟨_, _, _, hf⟩ => hf⟩
      · -- another client's frame neither adds nor removes `fd`
        have hr : ¬ w.Registers fd (.frame fd' env) := by
          rintro ⟨_, hf, _⟩; cases hf; exact hff rfl
        have hiff : fd ∈ members 0 (wsStore w.ui.wsFds fd') ↔ fd ∈ members 0 w.ui.wsFds := by
          constructor
          · intro hm
            rcases Finset.mem_insert.1 (wsStore_sub hm) with heq | hm
            · exact absurd heq.symm hff
            · exact hm
          · intro hm
            by_cases h0 : fd' = 0
            · subst h0; rw [wsStore_zero]; exact hm
            · exact members_sub_wsStore h0 hm
        simp only [hr, or_false]; exact hiff
    · rw [hs]
      apply hkeep _ (by rw [close_eq h])
      rintro ⟨_, hf, hd', _⟩; cases hf; exact hd hd'
  | broadcast json len send =>
    have hr : ¬ w.Registers fd (.broadcast json len send) := by rintro ⟨_, hf, _⟩; cases hf
    rw [out_broadcast h] at hno
    rw [step_broadcast h]
    simp only [hr, or_false]
    rw [members_sweep h.distinct (broadcastFrame json len), Finset.mem_sdiff]
    exact ⟨fun hm => hm.1, fun hm => ⟨hm, hno⟩⟩

/-- **Over a stay**: in the table at the end exactly if at its beginning, or registered. -/
theorem member_run (hfd : fd ≠ 0) : ∀ (mid : List NetEvent) (w : World), Served w →
    Stays fd w mid → (fd ∈ members 0 (netMachine.run w mid).ui.wsFds ↔
      fd ∈ members 0 w.ui.wsFds ∨
        ∃ m e m', mid = m ++ e :: m' ∧ (netMachine.run w m).Registers fd e) := by
  intro mid
  induction mid with
  | nil =>
    intro w _ _
    have hnil : ¬ ∃ m e m', ([] : List NetEvent) = m ++ e :: m' ∧
        (netMachine.run w m).Registers fd e := by
      rintro ⟨m, e, m', h, -⟩; cases m <;> cases h
    simp only [hnil, or_false]; rfl
  | cons e mid ih =>
    intro w hw hst
    have hstep := member_step hw hfd hst.1.2
    -- the first event registers, or one of the later ones does
    rw [Machine.run_cons, netMachine_step, ih _ (served_step hw e) hst.2]
    simp only [hstep, or_assoc]
    apply or_congr_right
    constructor
    · rintro (hr | ⟨m, f, m', rfl, hr⟩)
      · exact ⟨[], e, mid, rfl, hr⟩
      · exact ⟨e :: m, f, m', rfl, hr⟩
    · rintro ⟨m, f, m', heq, hr⟩
      cases m with
      | nil => cases heq; exact Or.inl hr
      | cons g m => cases heq; exact Or.inr ⟨m, f, m', rfl, hr⟩

/-- No session is on the number `0`. -/
theorem zero_not_live {es : List NetEvent} (h : netMachine.Along World.ok .start es) :
    Served (netMachine.run .start es) ∧ (0 : ℤ) ∉ (netMachine.run .start es).live := by
  refine Machine.run_inv (I := fun w => Served w ∧ (0 : ℤ) ∉ w.live) ?_ es _
    ⟨served_start, Finset.notMem_empty 0⟩ h
  rintro w e ⟨hw, h0⟩ he
  refine ⟨served_step hw e, ?_⟩
  rw [netMachine_step]
  rcases sessions_step hw e with ⟨fd, rfl, hl, -⟩ | ⟨fd, env, rfl, hl, -⟩ | ⟨fd, hl, -⟩ | ⟨hl, -⟩
  · -- a session never opens on `0`
    rw [hl]
    intro hm
    rcases Finset.mem_insert.1 hm with heq | hm
    · exact he.1 heq.symm
    · exact h0 hm
  · rw [hl]; exact h0
  · rw [hl]; exact fun hm => h0 (Finset.mem_of_mem_erase hm)
  · rw [hl]; exact h0

/-- **Every broadcast reaches every dashboard, exactly if all of them have registered.** -/
theorem every_broadcast_iff (es : List NetEvent) (h : netMachine.Along World.ok .start es) :
    EveryBroadcast es ↔ Heard es := by
  have key : ∀ pre fd env mid json len send, Listens es pre fd env mid json len send →
      ((∃ s ∈ ((netMachine.run .start (pre ++ .handshake fd env :: mid)).out
        (.broadcast json len send)).sends, s.sock = fd) ↔
      (fd ∈ members 0 (netMachine.run .start pre).ui.wsFds ∨
        ∃ m e m', mid = m ++ e :: m' ∧
          (netMachine.run .start (pre ++ .handshake fd env :: m)).Registers fd e)) := by
    intro pre fd env mid json len send hl
    obtain ⟨post, hpost⟩ := hl.split
    rw [← hpost] at h
    obtain ⟨hpre, hhs, -⟩ := Machine.along_append.1 h.left
    -- the session is open, so its number is not the mark of a free slot
    obtain ⟨hw, h0⟩ := zero_not_live hpre
    have hfd : fd ≠ 0 := by rintro rfl; exact h0 hhs.1
    have hw' := served_step hw (.handshake fd env)
    have hrun := member_run hfd mid _ hw' hl.stays
    simp only [Machine.run_append, Machine.run_cons, netMachine_step] at hrun ⊢
    rw [step_handshake] at hrun hw' ⊢
    rw [← hrun, out_broadcast (served_run hw' mid)]
    exact exists_send_iff
  constructor
  · intro hev pre fd env mid json len send hl
    exact (key pre fd env mid json len send hl).1 (hev pre fd env mid json len send hl)
  · intro hheard pre fd env mid json len send hl
    exact (key pre fd env mid json len send hl).2 (hheard pre fd env mid json len send hl)

/-- At most `MAX_CLIENTS` WebSocket sessions are open after an event. -/
def World.okRoom (w : World) (e : NetEvent) : Prop := w.ok e ∧ (w.step e).up.card ≤ maxClients

instance (w : World) (e : NetEvent) : Decidable (w.okRoom e) := by
  unfold World.okRoom; infer_instance

/-- A dashboard connects and sends a frame before the first broadcast. -/
def talker : List NetEvent :=
  [.opened 54, .handshake 54 helloEnv, .frame 54 helloEnv,
    .broadcast [123, 125] 2 fun _ => espOk]

/-- A dashboard that sends a frame hears the broadcasts. -/
theorem every_broadcast_talker : EveryBroadcast talker := by
  refine (every_broadcast_iff talker (by decide)).2 ?_
  intro pre fd env mid json len send hl
  obtain ⟨post, h⟩ := hl.split
  have hfree : ∃ i, (netMachine.run .start (talker.take 2)).ui.wsFds i = 0 := ⟨⟨0, by decide⟩, rfl⟩
  have hdelivers : helloEnv.Delivers := ⟨rfl, _, rfl, rfl⟩
  -- the only handshake is the second event, and the frame follows it
  rcases pre with _ | ⟨a, _ | ⟨b, pre⟩⟩
  · cases h
  · cases mid with
    | nil => cases h
    | cons f mid =>
      simp only [talker, List.cons_append, List.nil_append, List.cons.injEq] at h
      obtain ⟨rfl, hshake, rfl, -⟩ := h
      cases hshake
      right; exact ⟨[], _, mid, rfl, helloEnv, rfl, hdelivers, hfree⟩
  · simp only [talker, List.cons_append, List.cons.injEq] at h
    have hmem : NetEvent.handshake fd env ∈ talker.drop 2 := by
      rw [show talker.drop 2 = _ from h.2.2.symm]; simp
    simp [talker] at hmem

/-- **A dashboard that only listens** is sent nothing. -/
theorem listener_unheard :
    ¬ ∀ es, netMachine.Along World.okRoom .start es → EveryBroadcast es := by
  intro h
  have hl : Listens [.opened 54, .handshake 54 helloEnv, .broadcast [123, 125] 2 fun _ => espOk]
      [.opened 54] 54 helloEnv [] [123, 125] 2 (fun _ => espOk) :=
    ⟨List.prefix_rfl, rfl, trivial⟩
  obtain ⟨s, hs, -⟩ := h _ (by decide) _ _ _ _ _ _ _ hl
  exact absurd hs List.not_mem_nil

end Boatdash
