import Boatdash.Proof.Sessions
import Boatdash.Spec.Interleave

/-!
# One step of the overlapping broadcasts

* `world_step`, `sender_step`: what a step can do to the server and to a broadcast.
* `slot_step`: what it can do to a slot of the table.
* `broadcast_alone`: a broadcast that nothing interrupts is `http_ui_broadcast_json`.
* `timed_run`: the slot of a send in progress is free, or holds the socket it was issued to,
  or a socket heard of since.
-/

namespace Boatdash

open Slots

/-- The broadcast `p` waits for the send issued to `fd` at slot `i`, in the step numbered
`k`. -/
def Tasks.Waits (s : Tasks) (p : ℕ) (i : Fin maxClients) (fd : ℤ) (k : ℕ) : Prop :=
  ∃ frame is, s.senders p = some (.waiting frame i is fd k)

variable {s : Tasks} {e : TaskEvent}

/-! ## One step -/

theorem act_result {p : ℕ} {ret : EspErr} {frame : WsFrame} {i : Fin maxClients}
    {is : List (Fin maxClients)} {fd : ℤ} {k : ℕ}
    (h : s.senders p = some (.waiting frame i is fd k)) :
    s.act (.result p ret) = if ret ≠ espOk then (s.setSender p (some (.reading frame is))).clear i
      else s.setSender p (some (.reading frame is)) := by
  simp only [Tasks.act, h]

/-- The world changes by an event of the server, or by a failed send's result. -/
theorem world_step (s : Tasks) (e : TaskEvent) :
    (∃ f, e = .server f ∧ (s.step e).world = s.world.step f ∧ (s.step e).heard = s.hear f) ∨
      ((s.step e).heard = s.heard ∧ ((s.step e).world = s.world ∨
        ∃ p ret i fd k, e = .result p ret ∧ ret ≠ espOk ∧ s.Waits p i fd k ∧
          (s.step e).world = (s.clear i).world)) := by
  cases e with
  | server f => left; exact ⟨f, rfl, rfl, rfl⟩
  | call p json len => right; exact ⟨rfl, Or.inl rfl⟩
  | issue p =>
    right
    simp only [Tasks.step, Tasks.act]
    split
    · split <;> exact ⟨rfl, Or.inl rfl⟩
    · exact ⟨rfl, Or.inl rfl⟩
  | result p ret =>
    right
    by_cases hw : ∃ frame i is fd k, s.senders p = some (.waiting frame i is fd k)
    · obtain ⟨frame, i, is, fd, k, hw⟩ := hw
      rw [Tasks.step, act_result hw]
      by_cases hret : ret = espOk
      · rw [if_neg (not_not.2 hret)]; exact ⟨rfl, Or.inl rfl⟩
      · rw [if_pos hret]
        exact ⟨rfl, Or.inr ⟨p, ret, i, fd, k, rfl, hret, ⟨frame, is, hw⟩, rfl⟩⟩
    · have hact : s.act (.result p ret) = s := by
        simp only [Tasks.act]
        split
        · rename_i h; exact absurd ⟨_, _, _, _, _, h⟩ hw
        · rfl
      rw [Tasks.step, hact]; exact ⟨rfl, Or.inl rfl⟩

/-- Issuing a send changes no more than the process. -/
theorem world_issue (s : Tasks) (p : ℕ) : (s.step (.issue p)).world = s.world := by
  rcases world_step s (.issue p) with ⟨_, he, -⟩ | ⟨-, hw | ⟨_, _, _, _, _, he, -⟩⟩
  · cases he
  · exact hw
  · cases he

/-- A call of `ws_handler` that returned `ESP_OK`, and nothing else, is heard. -/
theorem hear_cases (s : Tasks) (f : NetEvent) :
    (∃ fd, f.caller = some fd ∧ s.world.out f = .returned espOk ∧
        s.hear f = Function.update s.heard fd (s.now + 1)) ∨
      ((f.caller = none ∨ s.world.out f ≠ .returned espOk) ∧ s.hear f = s.heard) := by
  unfold Tasks.hear
  split
  · rename_i fd ret hc ho
    by_cases hret : ret = espOk
    · left; subst hret; exact ⟨fd, hc, ho, if_pos rfl⟩
    · right; rw [if_neg hret]; exact ⟨Or.inr (by rw [ho]; simpa using hret), rfl⟩
  · rename_i h
    right
    refine ⟨?_, rfl⟩
    cases hc : f.caller with
    | none => left; rfl
    | some fd => right; intro ho; exact h fd _ hc ho

theorem ok_server {f : NetEvent} (hok : s.ok (.server f)) : s.world.ok f := by
  cases f with
  | broadcast json len send => trivial
  | _ => exact hok

/-- What an event of the server does to a slot: nothing, or it stores the caller. -/
theorem server_slot (h : Served s.world) {f : NetEvent} (hok : s.ok (.server f))
    (i : Fin maxClients) :
    (s.world.step f).ui.wsFds i = s.world.ui.wsFds i ∨
      (s.world.ui.wsFds i = 0 ∧ f.caller = some ((s.world.step f).ui.wsFds i) ∧
        s.world.out f = .returned espOk) := by
  cases f with
  | opened fd => left; rfl
  | handshake fd env => left; rw [step_handshake]
  | frame fd env =>
    rcases step_frame s.world fd env with ⟨-, ho, hs⟩ | ⟨-, -, hs⟩
    · rw [hs]
      rcases wsStore_slot s.world.ui.wsFds fd i with hi | ⟨h0, hi⟩
      · left; exact hi
      · right; exact ⟨h0, congrArg some hi.symm, ho⟩
    · left; rw [hs, close_eq h]
  | closed fd => left; show (s.world.close fd).ui.wsFds i = _; rw [close_eq h]
  | broadcast json len send => exact hok.elim

/-- A process goes on by its own steps only. -/
theorem sender_step (s : Tasks) (e : TaskEvent) (p : ℕ) :
    (s.step e).senders p = s.senders p ∨
      (∃ frame is, (s.step e).senders p = some (.reading frame is)) ∨
      (s.step e).senders p = none ∨
      ∃ frame i is, e = .issue p ∧ s.world.ui.wsFds i ≠ 0 ∧
        (s.step e).senders p = some (.waiting frame i is (s.world.ui.wsFds i) s.now) := by
  have hset : ∀ (q : ℕ) (b : Option Sender), p ≠ q → (s.setSender q b).senders p = s.senders p :=
    fun q b hpq => Function.update_of_ne hpq ..
  have hself : ∀ b : Option Sender, (s.setSender p b).senders p = b :=
    fun b => Function.update_self ..
  cases e with
  | server f => left; rfl
  | call q json len =>
    by_cases hpq : p = q
    · subst hpq
      right
      cases hsrv : s.world.ui.sServer with
      | none => right; left; simp only [Tasks.step, Tasks.act, hself, hsrv]; rfl
      | some srv => left; simp only [Tasks.step, Tasks.act, hself, hsrv]; exact ⟨_, _, rfl⟩
    · left; exact hset q _ hpq
  | issue q =>
    simp only [Tasks.step, Tasks.act]
    split
    · rename_i frame i is hq
      by_cases hpq : p = q
      · subst hpq
        right
        by_cases hi : s.world.ui.wsFds i = 0
        · rw [if_neg (not_not.2 hi)]; left; exact ⟨frame, is, hself _⟩
        · rw [if_pos hi]; right; right; exact ⟨frame, i, is, rfl, hi, hself _⟩
      · left; split <;> exact hset q _ hpq
    · left; rfl
  | result q ret =>
    simp only [Tasks.step, Tasks.act]
    split
    · rename_i frame i is fd k hq
      by_cases hpq : p = q
      · subst hpq
        right; left
        refine ⟨frame, is, ?_⟩
        split <;> exact hself _
      · left; split <;> exact hset q _ hpq
    · left; rfl

/-- A send in progress after a step was so before it, or the step issued it. -/
theorem waits_step {p : ℕ} {i : Fin maxClients} {fd : ℤ} {k : ℕ} (h : (s.step e).Waits p i fd k) :
    s.Waits p i fd k ∨ (e = .issue p ∧ k = s.now ∧ s.world.ui.wsFds i = fd) := by
  obtain ⟨frame, is, h⟩ := h
  rcases sender_step s e p with hs | ⟨_, _, hs⟩ | hs | ⟨_, _, _, he, -, hs⟩
  · left; exact ⟨frame, is, hs ▸ h⟩
  · rw [hs] at h; cases h
  · rw [hs] at h; cases h
  · rw [hs] at h; cases h; right; exact ⟨he, rfl, rfl⟩

/-- **One step on a slot**: it stays, or is free and takes the socket of a call that is heard,
or is cleared by the failed result of a send that was made there. -/
theorem slot_step (h : Served s.world) (hok : s.ok e) (i : Fin maxClients) :
    (s.step e).world.ui.wsFds i = s.world.ui.wsFds i ∨
      (s.world.ui.wsFds i = 0 ∧ (s.step e).heard ((s.step e).world.ui.wsFds i) = s.now + 1) ∨
      ((s.step e).world.ui.wsFds i = 0 ∧
        ∃ p ret fd k, e = .result p ret ∧ ret ≠ espOk ∧ s.Waits p i fd k) := by
  rcases world_step s e with ⟨f, rfl, hw, hh⟩ | ⟨hh, hw | ⟨p, ret, j, fd, k, he, hret, hwait, hw⟩⟩
  · rcases server_slot h hok i with hi | ⟨h0, hc, ho⟩
    · left; rw [hw]; exact hi
    · -- the socket stored is the caller's, and its call is heard in this step
      right; left
      refine ⟨h0, ?_⟩
      rw [hh, hw]
      rcases hear_cases s f with ⟨fd, hfd, -, hheard⟩ | ⟨hno | hno, -⟩
      · rw [hfd, Option.some.injEq] at hc; rw [hheard, hc, Function.update_self]
      · rw [hno] at hc; cases hc
      · exact absurd ho hno
  · left; rw [hw]
  · rw [hw]
    by_cases hij : i = j
    · subst hij
      right; right
      exact ⟨Function.update_self .., p, ret, fd, k, he, hret, hwait⟩
    · left; exact Function.update_of_ne hij ..

/-! ## A broadcast alone -/

/-- The steps of the broadcast `p` over the slots `is`, with nothing in between. -/
def sweepSteps (p : ℕ) (send : Fin maxClients → EspErr) (is : List (Fin maxClients)) :
    List TaskEvent :=
  is.flatMap fun i => [.issue p, .result p (send i)]

/-- **One slot**: both steps of it are one pass of the loop. -/
theorem slotSteps_run {p : ℕ} {frame : WsFrame} {i : Fin maxClients} {is : List (Fin maxClients)}
    (hs : s.senders p = some (.reading frame (i :: is))) (send : Fin maxClients → EspErr)
    (acc : List WsSend) :
    let u := (s.step (.issue p)).step (.result p (send i))
    let r := broadcastSlot frame send (s.world.ui.wsFds, acc) i
    u.senders p = some (.reading frame is) ∧
      u.world = { s.world with ui := { s.world.ui with wsFds := r.1 } } ∧
      acc ++ (s.step (.issue p)).out (.result p (send i)) = r.2 := by
  have hself : ∀ (u : Tasks) (b : Option Sender), (u.setSender p b).senders p = b :=
    fun u b => Function.update_self ..
  by_cases hi : s.world.ui.wsFds i = 0
  · -- a free slot: no send is issued, so no result comes
    have hissue : s.step (.issue p) =
        { s.setSender p (some (.reading frame is)) with now := s.now + 1 } := by
      simp only [Tasks.step, Tasks.act, hs]; rw [if_neg (not_not.2 hi)]
    have hread : (s.step (.issue p)).senders p = some (.reading frame is) := by
      rw [hissue]; exact hself s _
    have hresult : (s.step (.issue p)).act (.result p (send i)) = s.step (.issue p) := by
      simp only [Tasks.act, hread]
    have hbody : broadcastSlot frame send (s.world.ui.wsFds, acc) i = (s.world.ui.wsFds, acc) :=
      if_neg (not_not.2 hi)
    refine ⟨?_, ?_, ?_⟩
    · rw [Tasks.step, hresult]; exact hread
    · rw [Tasks.step, hresult, hbody, hissue]; rfl
    · simp only [Tasks.out, hread, hbody, List.append_nil]
  · have hissue : s.step (.issue p) =
        { s.setSender p (some (.waiting frame i is (s.world.ui.wsFds i) s.now)) with
          now := s.now + 1 } := by
      simp only [Tasks.step, Tasks.act, hs]; rw [if_pos hi]
    have hwait : (s.step (.issue p)).senders p =
        some (.waiting frame i is (s.world.ui.wsFds i) s.now) := by
      rw [hissue]; exact hself s _
    have hbody : broadcastSlot frame send (s.world.ui.wsFds, acc) i =
        (if send i ≠ espOk then Function.update s.world.ui.wsFds i 0 else s.world.ui.wsFds,
          acc ++ [⟨s.world.ui.wsFds i, frame, send i⟩]) := if_pos hi
    refine ⟨?_, ?_, ?_⟩
    · rw [Tasks.step, act_result hwait]; split <;> exact hself _ _
    · rw [Tasks.step, act_result hwait, hbody, hissue]; split <;> rfl
    · simp only [Tasks.out, hwait, hbody]

/-- **The loop, step by step**, is the loop of `http_ui_broadcast_json`. -/
theorem sweepSteps_run (p : ℕ) (send : Fin maxClients → EspErr) (frame : WsFrame) :
    ∀ (is : List (Fin maxClients)) (s : Tasks) (acc : List WsSend),
      s.senders p = some (.reading frame is) →
      let r := is.foldl (broadcastSlot frame send) (s.world.ui.wsFds, acc)
      (taskMachine.run s (sweepSteps p send is)).world =
          { s.world with ui := { s.world.ui with wsFds := r.1 } } ∧
        acc ++ (taskMachine.log s (sweepSteps p send is)).flatMap (·.2) = r.2 := by
  intro is
  induction is with
  | nil => intro s acc _; exact ⟨rfl, List.append_nil acc⟩
  | cons i is ih =>
    intro s acc hs
    obtain ⟨hread, hworld, hsent⟩ := slotSteps_run hs send acc
    obtain ⟨ih₁, ih₂⟩ := ih _ (broadcastSlot frame send (s.world.ui.wsFds, acc) i).2 hread
    rw [hworld] at ih₁ ih₂
    have hlog : acc ++ (taskMachine.log s (sweepSteps p send (i :: is))).flatMap (·.2) =
        (acc ++ (s.step (.issue p)).out (.result p (send i))) ++
          (taskMachine.log ((s.step (.issue p)).step (.result p (send i)))
            (sweepSteps p send is)).flatMap (·.2) := by
      rw [List.append_assoc]; rfl
    refine ⟨ih₁, ?_⟩
    rw [hlog, hsent]; exact ih₂

/-- **A broadcast that nothing interrupts** is the function as called. -/
theorem broadcast_alone (h : s.world.ui.sServer.isSome) (p : ℕ) (json : List UInt8)
    (len : UInt32) (send : Fin maxClients → EspErr) :
    let steps := .call p json len :: sweepSteps p send (List.finRange maxClients)
    (taskMachine.run s steps).world = s.world.step (.broadcast json len send) ∧
      (taskMachine.log s steps).flatMap (·.2) =
        (s.world.out (.broadcast json len send)).sends := by
  obtain ⟨srv, hsrv⟩ := Option.isSome_iff_exists.1 h
  have hcall : (s.step (.call p json len)).senders p =
      some (.reading (broadcastFrame json len) (List.finRange maxClients)) := by
    simp only [Tasks.step, Tasks.act, hsrv]; exact Function.update_self ..
  obtain ⟨hworld, hsent⟩ := sweepSteps_run p send _ _ (s.step (.call p json len)) [] hcall
  have hb : httpUiBroadcastJson json len send s.world.ui =
      (let r := (List.finRange maxClients).foldl
          (broadcastSlot (broadcastFrame json len) send) (s.world.ui.wsFds, [])
       ({ s.world.ui with wsFds := r.1 }, r.2)) := by
    simp only [httpUiBroadcastJson, hsrv]
  constructor
  · simp only [World.step, hb]; exact hworld
  · simp only [World.out, CallOut.sends, hb]; exact hsent

/-! ## The invariant -/

/-- What every step keeps. -/
structure Timed (s : Tasks) : Prop where
  served : Served s.world
  up : s.world.up ⊆ s.world.live
  past : ∀ fd, s.heard fd ≤ s.now
  waits : ∀ p i fd k, s.Waits p i fd k → k < s.now ∧
    (s.world.ui.wsFds i = 0 ∨ s.world.ui.wsFds i = fd ∨ k < s.heard (s.world.ui.wsFds i))

/-- What was heard stays, or is now. -/
theorem heard_step (s : Tasks) (e : TaskEvent) (fd : ℤ) :
    (s.step e).heard fd = s.heard fd ∨ (s.step e).heard fd = s.now + 1 := by
  rcases world_step s e with ⟨f, -, -, hh⟩ | ⟨hh, -⟩
  · rw [hh]
    rcases hear_cases s f with ⟨fd', -, -, hheard⟩ | ⟨-, hheard⟩
    · rw [hheard, Function.update_apply]; split
      · right; rfl
      · left; rfl
    · left; rw [hheard]
  · left; rw [hh]

theorem heard_mono (h : Timed s) (e : TaskEvent) (fd : ℤ) : s.heard fd ≤ (s.step e).heard fd := by
  have hpast := h.past fd
  rcases heard_step s e fd with hh | hh <;> omega

theorem served_task (h : Served s.world) (e : TaskEvent) : Served (s.step e).world := by
  rcases world_step s e with ⟨f, -, hw, -⟩ | ⟨-, hw | ⟨_, _, i, _, _, -, -, -, hw⟩⟩
  · rw [hw]; exact served_step h f
  · rw [hw]; exact h
  · rw [hw]
    have hclear : ∀ j, Function.update s.world.ui.wsFds i 0 j = s.world.ui.wsFds j ∨
        Function.update s.world.ui.wsFds i 0 j = 0 := by
      intro j
      by_cases hij : j = i
      · subst hij; right; exact Function.update_self ..
      · left; exact Function.update_of_ne hij ..
    exact ⟨h.running, h.noClose, distinct_of_sub h.distinct hclear⟩

/-- The sessions that completed the handshake are open. -/
theorem up_step {w : World} (h : Served w) (hup : w.up ⊆ w.live) {f : NetEvent} (hok : w.ok f) :
    (w.step f).up ⊆ (w.step f).live := by
  rcases sessions_step h f with
    ⟨fd, rfl, hl, hu⟩ | ⟨fd, env, rfl, hl, hu⟩ | ⟨fd, hl, hu⟩ | ⟨hl, hu⟩
  · rw [hl, hu]; exact hup.trans (Finset.subset_insert fd w.live)
  · rw [hl, hu]; exact Finset.insert_subset hok.1 hup
  · rw [hl, hu]; exact Finset.erase_subset_erase fd hup
  · rw [hl, hu]; exact hup

/-- **One step.** -/
theorem timed_step (h : Timed s) (hok : s.ok e) : Timed (s.step e) := by
  have hnow : (s.step e).now = s.now + 1 := rfl
  refine ⟨served_task h.served e, ?_, ?_, ?_⟩
  · rcases world_step s e with ⟨f, rfl, hw, -⟩ | ⟨-, hw | ⟨_, _, i, _, _, -, -, -, hw⟩⟩
    · rw [hw]; exact up_step h.served h.up (ok_server hok)
    · rw [hw]; exact h.up
    · rw [hw]; exact h.up
  · intro fd
    have hpast := h.past fd
    rcases heard_step s e fd with hh | hh <;> omega
  · intro p i fd k hw
    rcases waits_step hw with hw | ⟨rfl, rfl, hi⟩
    · obtain ⟨hk, hslot⟩ := h.waits p i fd k hw
      refine ⟨by omega, ?_⟩
      rcases slot_step h.served hok i with hst | ⟨-, hheard⟩ | ⟨hzero, -⟩
      · -- the slot stays: what was heard of its socket is still heard
        rw [hst]
        have hmono := heard_mono h e (s.world.ui.wsFds i)
        rcases hslot with h0 | heq | hlt
        · exact Or.inl h0
        · exact Or.inr (Or.inl heq)
        · exact Or.inr (Or.inr (by omega))
      · -- it was free and took a socket that is heard of in this step
        right; right; omega
      · left; exact hzero
    · -- the send just issued: to the socket in the slot
      refine ⟨by omega, Or.inr (Or.inl ?_)⟩
      rw [world_issue]; exact hi

theorem timed_start : Timed .start := by
  refine ⟨served_start, Finset.Subset.refl _, fun fd => le_rfl, ?_⟩
  rintro p i fd k ⟨frame, is, h⟩
  cases h

/-- **A run.** -/
theorem timed_run {es : List TaskEvent} (h : taskMachine.Along Tasks.ok .start es) :
    Timed (taskMachine.run .start es) :=
  Machine.run_inv (I := Timed) (fun _ _ hI hok => timed_step hI hok) es _ timed_start h

theorem now_run (es : List TaskEvent) (s : Tasks) :
    (taskMachine.run s es).now = s.now + es.length := by
  induction es generalizing s with
  | nil => rfl
  | cons e es ih =>
    have hstep : (s.step e).now = s.now + 1 := rfl
    rw [Machine.run_cons, taskMachine_step, ih, hstep, List.length_cons]; omega

theorem heard_run {es : List TaskEvent} (h : Timed s) (hok : taskMachine.Along Tasks.ok s es)
    (fd : ℤ) : s.heard fd ≤ (taskMachine.run s es).heard fd := by
  induction es generalizing s with
  | nil => exact le_rfl
  | cons e es ih => exact (heard_mono h e fd).trans (ih (timed_step h hok.1) hok.2)

end Boatdash
