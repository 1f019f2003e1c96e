import Boatdash.Proof.Interleave

/-!
# Evictions by overlapping broadcasts

A failed send clears its slot by index, whatever the slot holds by then.
`evicts_own_send_iff`: **an entry is cleared only by a send issued to it after its last call
of `ws_handler`, exactly when no failed send's result comes after `ws_handler` returned
`ESP_OK` for the socket then in its slot.** Where one does, a registration is lost to an
earlier send, or to another client's.
-/

namespace Boatdash

open Slots

/-- A failed send's result comes with no call of `ws_handler` for the socket now in the slot
having returned `ESP_OK` since the send was issued. -/
def Tasks.Fresh (s : Tasks) : TaskEvent → Prop
  | .result p ret =>
    match s.senders p with
    | some (.waiting _ i _ _ k) =>
      ret ≠ espOk → s.world.ui.wsFds i ≠ 0 → s.heard (s.world.ui.wsFds i) ≤ k
    | _ => True
  | _ => True

instance (s : Tasks) (e : TaskEvent) : Decidable (s.Fresh e) := by
  unfold Tasks.Fresh
  split
  · split <;> infer_instance
  · infer_instance

/-- In the run `es`, a call of `ws_handler` after `pre` returns `ESP_OK` and leaves the live
socket `fd` in the table; after `mid`, the step `e` clears a slot that holds it. -/
structure Cleared (es pre : List TaskEvent) (call : NetEvent) (fd : ℤ) (mid : List TaskEvent)
    (e : TaskEvent) (i : Fin maxClients) : Prop where
  split : pre ++ .server call :: (mid ++ [e]) <+: es
  caller : call.caller = some fd
  accepted : (taskMachine.run .start pre).world.out call = .returned espOk
  live : fd ∈ (taskMachine.run .start (pre ++ [.server call])).world.live
  stored : fd ∈ members 0 (taskMachine.run .start (pre ++ [.server call])).world.ui.wsFds
  holds : (taskMachine.run .start (pre ++ .server call :: mid)).world.ui.wsFds i = fd
  gone : (taskMachine.run .start (pre ++ .server call :: (mid ++ [e]))).world.ui.wsFds i ≠ fd

/-- **An entry is cleared only by its own send**: among the steps after the call is the
failed result of a send that was issued to the socket in one of them. -/
def OwnSend (es : List TaskEvent) : Prop :=
  ∀ pre call fd mid e i, Cleared es pre call fd mid e i →
    ∃ a p ret b j k, mid ++ [e] = a ++ .result p ret :: b ∧ ret ≠ espOk ∧
      (taskMachine.run .start (pre ++ .server call :: a)).Waits p j fd k ∧ pre.length < k

variable {s : Tasks} {e : TaskEvent}

/-! ## Calls that are heard -/

theorem run_call (pre : List TaskEvent) (call : NetEvent) (mid : List TaskEvent) :
    taskMachine.run .start (pre ++ .server call :: mid) =
      taskMachine.run ((taskMachine.run .start pre).step (.server call)) mid := by
  rw [Machine.run_append]; rfl

/-- A call is heard in its own step. -/
theorem call_heard {pre : List TaskEvent} {call : NetEvent} {fd : ℤ} (hc : call.caller = some fd)
    (ho : (taskMachine.run .start pre).world.out call = .returned espOk) :
    ((taskMachine.run .start pre).step (.server call)).heard fd = pre.length + 1 := by
  have hnow := now_run pre .start
  rcases hear_cases (taskMachine.run .start pre) call with ⟨fd', hfd', -, hh⟩ | ⟨hno | hno, -⟩
  · have heq : fd' = fd := Option.some.inj (hfd'.symm.trans hc)
    subst heq
    show (taskMachine.run .start pre).hear call fd' = _
    rw [hh, Function.update_self, hnow]; simp [Tasks.start]
  · rw [hno] at hc; cases hc
  · exact absurd ho hno

/-- The caller of a call that returned `ESP_OK` has an open session. -/
theorem call_live (h : Timed s) {call : NetEvent} (hok : s.ok (.server call)) {fd : ℤ}
    (hc : call.caller = some fd) (ho : s.world.out call = .returned espOk) :
    fd ∈ (s.step (.server call)).world.live := by
  show fd ∈ (s.world.step call).live
  cases call with
  | handshake fd' env => cases hc; rw [step_handshake]; exact hok.1
  | frame fd' env =>
    cases hc
    rcases step_frame s.world fd env with ⟨-, -, hs⟩ | ⟨-, hno, -⟩
    · rw [hs]; exact h.up hok
    · exact absurd ho hno
  | _ => cases hc

/-- Any other step leaves what was heard of a socket. -/
theorem heard_same {fd : ℤ} (hno : ¬ ∃ call, e = .server call ∧ call.caller = some fd ∧
    s.world.out call = .returned espOk) : (s.step e).heard fd = s.heard fd := by
  rcases world_step s e with ⟨f, rfl, -, hh⟩ | ⟨hh, -⟩
  · rw [hh]
    rcases hear_cases s f with ⟨fd', hc, ho, hheard⟩ | ⟨-, hheard⟩
    · have hne : fd ≠ fd' := by rintro rfl; exact hno ⟨f, rfl, hc, ho⟩
      rw [hheard, Function.update_of_ne hne]
    · rw [hheard]
  · rw [hh]

/-- What a result that is not fresh is. -/
theorem not_fresh (h : ¬ s.Fresh e) : ∃ p ret i fd k, e = .result p ret ∧ s.Waits p i fd k ∧
    ret ≠ espOk ∧ s.world.ui.wsFds i ≠ 0 ∧ k < s.heard (s.world.ui.wsFds i) := by
  cases e with
  | result p ret =>
    cases hs : s.senders p with
    | none => exact absurd (by simp only [Tasks.Fresh, hs]) h
    | some b =>
      cases b with
      | reading frame is => exact absurd (by simp only [Tasks.Fresh, hs]) h
      | waiting frame i is fd k =>
        simp only [Tasks.Fresh, hs] at h
        push Not at h
        obtain ⟨hret, hne, hlt⟩ := h
        exact ⟨p, ret, i, fd, k, rfl, ⟨frame, is, hs⟩, hret, hne, hlt⟩
  | _ => exact absurd trivial h

/-! ## Evictions -/

/-- **The step that clears a socket's slot** is the failed result of a send to it, issued
since it was last heard of. -/
theorem cleared_by (h : Timed s) (hok : s.ok e) (hfresh : s.Fresh e) {i : Fin maxClients} {fd : ℤ}
    (hi : s.world.ui.wsFds i = fd) (hgone : (s.step e).world.ui.wsFds i ≠ fd) (hfd : fd ≠ 0) :
    ∃ p ret k, e = .result p ret ∧ ret ≠ espOk ∧ s.Waits p i fd k ∧ s.heard fd ≤ k := by
  rcases slot_step h.served hok i with hst | ⟨h0, -⟩ | ⟨-, p, ret, fd', k, rfl, hret, hw⟩
  · exact absurd (hst.trans hi) hgone
  · exact absurd (hi.symm.trans h0) hfd
  · obtain ⟨frame, is, hs⟩ := hw
    have hheard : s.heard fd ≤ k := by
      simp only [Tasks.Fresh, hs, hi] at hfresh
      exact hfresh hret hfd
    -- the socket in the slot is the one sent to: nothing was heard of it since
    rcases (h.waits p i fd' k ⟨frame, is, hs⟩).2 with h0 | heq | hlt
    · exact absurd (hi.symm.trans h0) hfd
    · rw [hi] at heq; subst heq
      exact ⟨p, ret, k, rfl, hret, ⟨frame, is, hs⟩, hheard⟩
    · rw [hi] at hlt; omega

/-- Fresh results: an entry is cleared only by its own send. -/
theorem ownSend_of_fresh (es : List TaskEvent) (h : taskMachine.Along Tasks.ok .start es)
    (hfresh : taskMachine.Along Tasks.Fresh .start es) : OwnSend es := by
  intro pre call fd mid e i hc
  obtain ⟨post, hpost⟩ := hc.split
  have hes : es = (pre ++ .server call :: mid) ++ e :: post := by rw [← hpost]; simp
  rw [Machine.along_iff] at hfresh
  have hfr := hfresh _ e post hes
  rw [hes] at h
  have hok := Machine.along_iff.1 h _ e post rfl
  have hpre := h.left
  have hT := timed_run hpre
  obtain ⟨hok₁, hok₂, hok₃⟩ := Machine.along_append.1 hpre
  have hT₁ := timed_run hok₁
  have hfd : fd ≠ 0 := (mem_members.1 hc.stored).1
  have hgone := hc.gone
  rw [show pre ++ .server call :: (mid ++ [e]) = (pre ++ .server call :: mid) ++ [e] by simp,
    Machine.run_append] at hgone
  obtain ⟨p, ret, k, rfl, hret, hw, hk⟩ := cleared_by hT hok hfr hc.holds hgone hfd
  -- the call was heard, and what is heard stays heard
  have hheard := call_heard hc.caller hc.accepted
  have hmono := heard_run (timed_step hT₁ hok₂) hok₃ fd
  refine ⟨mid, p, ret, [], i, k, rfl, hret, hw, ?_⟩
  rw [run_call] at hk
  omega

/-! ## The last call -/

/-- In the run `es`, the last call of `ws_handler` for `fd` that returned `ESP_OK` is the one
after `pre`: it left the live `fd` in the table, no send to it issued since has failed, and
those in progress are at its slot. -/
structure LastCall (es : List TaskEvent) (fd : ℤ) (pre : List TaskEvent) (call : NetEvent)
    (mid : List TaskEvent) : Prop where
  split : es = pre ++ .server call :: mid
  caller : call.caller = some fd
  accepted : (taskMachine.run .start pre).world.out call = .returned espOk
  heard : (taskMachine.run .start es).heard fd = pre.length + 1
  live : fd ∈ (taskMachine.run .start (pre ++ [.server call])).world.live
  stored : fd ∈ members 0 (taskMachine.run .start (pre ++ [.server call])).world.ui.wsFds
  unfailed : ∀ a p ret b, mid = a ++ .result p ret :: b → ret ≠ espOk →
    ∀ j k, (taskMachine.run .start (pre ++ .server call :: a)).Waits p j fd k → k ≤ pre.length
  waits : ∀ p j k, (taskMachine.run .start es).Waits p j fd k → pre.length < k →
    (taskMachine.run .start es).world.ui.wsFds j = fd

/-- A member of the table was one before, or is the caller of a call that returned
`ESP_OK`. -/
theorem member_back (h : Served s.world) (hok : s.ok e) {fd : ℤ}
    (hm : fd ∈ members 0 (s.step e).world.ui.wsFds) :
    fd ∈ members 0 s.world.ui.wsFds ∨ ∃ call, e = .server call ∧ call.caller = some fd ∧
      s.world.out call = .returned espOk := by
  obtain ⟨hfd, i, hi⟩ := mem_members.1 hm
  rcases world_step s e with ⟨f, rfl, hw, -⟩ | ⟨-, hw | ⟨_, _, j, _, _, -, -, -, hw⟩⟩
  · rw [hw] at hi
    rcases server_slot h hok i with hst | ⟨-, hc, ho⟩
    · left; rw [hst] at hi; exact mem_members.2 ⟨hfd, i, hi⟩
    · right; rw [hi] at hc; exact ⟨f, rfl, hc, ho⟩
  · left; rw [hw] at hi; exact mem_members.2 ⟨hfd, i, hi⟩
  · left
    rw [hw] at hi
    by_cases hij : i = j
    · subst hij; exact absurd ((Function.update_self ..).symm.trans hi).symm hfd
    · exact mem_members.2 ⟨hfd, i, (Function.update_of_ne hij ..).symm.trans hi⟩

/-- The failed result of a send at a socket's slot takes it out of the table. -/
theorem member_lost (h : Served s.world) {p : ℕ} {ret : EspErr} (hret : ret ≠ espOk)
    {j : Fin maxClients} {fd fd' : ℤ} {k : ℕ} (hw : s.Waits p j fd' k)
    (hj : s.world.ui.wsFds j = fd) :
    fd ∉ members 0 (s.step (.result p ret)).world.ui.wsFds := by
  obtain ⟨frame, is, hs⟩ := hw
  have hworld : (s.step (.result p ret)).world.ui.wsFds =
      Function.update s.world.ui.wsFds j 0 := by
    rw [Tasks.step, act_result hs, if_pos hret]; rfl
  -- the entries are distinct, so no other slot holds the socket
  rw [hworld, members_update_clear h.distinct j, hj]
  exact Finset.notMem_erase fd _

/-- **One more step.** -/
theorem lastCall_step {es : List TaskEvent} (hT : Timed (taskMachine.run .start es))
    (hok : (taskMachine.run .start es).ok e) {fd : ℤ}
    (hm : fd ∈ members 0 (taskMachine.run .start (es ++ [e])).world.ui.wsFds)
    (ih : fd ∈ members 0 (taskMachine.run .start es).world.ui.wsFds →
      ∃ pre call mid, LastCall es fd pre call mid) :
    ∃ pre call mid, LastCall (es ++ [e]) fd pre call mid := by
  have hrun : taskMachine.run .start (es ++ [e]) = (taskMachine.run .start es).step e :=
    Machine.run_append ..
  have hnow := now_run es .start
  have hT' := timed_step hT hok
  by_cases hcall : ∃ call, e = .server call ∧ call.caller = some fd ∧
      (taskMachine.run .start es).world.out call = .returned espOk
  · -- the step is a call that is heard: nothing was issued since
    obtain ⟨call, rfl, hc, ho⟩ := hcall
    refine ⟨es, call, [], rfl, hc, ho, ?_, ?_, hm, ?_, ?_⟩
    · rw [hrun]; exact call_heard hc ho
    · rw [hrun]; exact call_live hT hok hc ho
    · intro a p ret b hsplit
      cases a <;> cases hsplit
    · intro p j k hw hk
      rw [hrun] at hw
      have hlt := (hT'.waits p j fd k hw).1
      have hnow' : ((taskMachine.run .start es).step (.server call)).now =
          (taskMachine.run .start es).now + 1 := rfl
      rw [hnow', hnow] at hlt
      simp only [Tasks.start] at hlt
      omega
  · rw [hrun] at hm
    have hm₀ := (member_back hT.served hok hm).resolve_right hcall
    obtain ⟨pre, call, mid, hl⟩ := ih hm₀
    have hfd : fd ≠ 0 := (mem_members.1 hm₀).1
    refine ⟨pre, call, mid ++ [e], ?_, hl.caller, hl.accepted, ?_, hl.live, hl.stored, ?_, ?_⟩
    · rw [hl.split]; simp
    · rw [hrun, ← hl.heard]; exact heard_same hcall
    · intro a p ret b hsplit hret j k hw
      rcases Machine.split_last hsplit with ⟨rfl, rfl⟩ | ⟨b', hb'⟩
      · -- the step itself would have cleared the slot
        rw [← hl.split] at hw
        by_contra hk
        exact member_lost hT.served hret hw (hl.waits p j k hw (by omega)) hm
      · exact hl.unfailed a p ret b' hb' hret j k hw
    · intro p j k hw hk
      rw [hrun] at hw ⊢
      rcases waits_step hw with hw | ⟨rfl, -, hj⟩
      · have hj := hl.waits p j k hw hk
        rcases slot_step hT.served hok j with hst | ⟨h0, -⟩ | ⟨-, q, ret, fd', k', rfl, hret, hq⟩
        · rw [hst]; exact hj
        · exact absurd (hj.symm.trans h0) hfd
        · exact absurd hm (member_lost hT.served hret hq hj)
      · -- the send just issued goes to the socket in its slot
        rw [world_issue]; exact hj

theorem lastCall_run (es : List TaskEvent) (h : taskMachine.Along Tasks.ok .start es) :
    ∀ fd ∈ members 0 (taskMachine.run .start es).world.ui.wsFds,
      ∃ pre call mid, LastCall es fd pre call mid := by
  induction es using List.reverseRecOn with
  | nil =>
    intro fd hm
    rw [show (taskMachine.run .start []).world.ui.wsFds = fun _ => 0 from rfl, members_empty] at hm
    exact absurd hm (Finset.notMem_empty fd)
  | append_singleton es e ih =>
    intro fd hm
    obtain ⟨hes, he, -⟩ := Machine.along_append.1 h
    exact lastCall_step (timed_run hes) he hm (ih hes fd)

/-- A result that is not fresh clears an entry without a send of its own. -/
theorem fresh_of_ownSend (es : List TaskEvent) (h : taskMachine.Along Tasks.ok .start es)
    (hown : OwnSend es) : taskMachine.Along Tasks.Fresh .start es := by
  rw [Machine.along_iff]
  rintro seen e post rfl
  have hseen := h.left
  by_contra hfresh
  obtain ⟨p, ret, i, fd₀, k, rfl, hw, hret, hne, hheard⟩ := not_fresh hfresh
  set fd := (taskMachine.run .start seen).world.ui.wsFds i with hfd
  obtain ⟨pre, call, mid, hl⟩ := lastCall_run seen hseen fd (mem_members_slot hne)
  have hcleared : Cleared (seen ++ .result p ret :: post) pre call fd mid (.result p ret) i := by
    refine ⟨⟨post, ?_⟩, hl.caller, hl.accepted, hl.live, hl.stored, ?_, ?_⟩
    · rw [hl.split]; simp
    · rw [← hl.split]
    · rw [show pre ++ .server call :: (mid ++ [.result p ret]) = seen ++ [.result p ret] by
        rw [hl.split]; simp, Machine.run_append]
      intro hgone
      have hlost := member_lost (timed_run hseen).served hret hw hfd.symm
      exact hlost (mem_members.2 ⟨hne, i, hgone⟩)
  obtain ⟨a, q, ret', b, j, k', hsplit, hret', hq, hk'⟩ := hown _ _ _ _ _ _ hcleared
  rcases Machine.split_last hsplit with ⟨rfl, heq⟩ | ⟨b', hb'⟩
  · -- the only failed result left is the step's own, and it was issued before the call
    cases heq
    rw [← hl.split] at hq
    obtain ⟨_, _, hq⟩ := hq
    obtain ⟨_, _, hw⟩ := hw
    rw [hq, Option.some.injEq, Sender.waiting.injEq] at hw
    obtain ⟨-, -, -, -, rfl⟩ := hw
    have hlast := hl.heard
    omega
  · have hle := hl.unfailed a q ret' b' hb' hret' j k' hq
    omega

/-- **An entry is cleared only by its own send, exactly if every failed result is fresh.** -/
theorem evicts_own_send_iff (es : List TaskEvent) (h : taskMachine.Along Tasks.ok .start es) :
    OwnSend es ↔ taskMachine.Along Tasks.Fresh .start es :=
  ⟨fresh_of_ownSend es h, ownSend_of_fresh es h⟩

/-- A client registers, and a broadcast waits for its send to it. -/
def sending : List TaskEvent :=
  [.server (.opened 54), .server (.handshake 54 helloEnv), .server (.frame 54 helloEnv),
    .call 1 [123, 125] 2, .issue 1]

/-- A single broadcast whose send fails. -/
theorem evicts_own_send_one : OwnSend (sending ++ [.result 1 espFail]) :=
  (evicts_own_send_iff _ (by decide)).2 (by decide)

/-- The client's session closes under two broadcasts; the first clears its slot, and the next
client takes it. -/
def taken : List TaskEvent :=
  sending ++ [.call 2 [123, 125] 2, .issue 2, .server (.closed 54), .result 1 espFail,
    .server (.opened 55), .server (.handshake 55 helloEnv)]

/-- **The second broadcast evicts the new client**, to which nothing was sent. -/
theorem evicts_other : ¬ ∀ es, taskMachine.Along Tasks.ok .start es → OwnSend es := by
  intro h
  have hc : Cleared (taken ++ [.server (.frame 55 helloEnv), .result 2 espFail]) taken
      (.frame 55 helloEnv) 55 [] (.result 2 espFail) ⟨0, by decide⟩ :=
    ⟨List.prefix_rfl, rfl, rfl, by decide, by decide, by decide, by decide⟩
  obtain ⟨a, p, ret, b, j, k, hsplit, -, ⟨frame, is, hw⟩, -⟩ := h _ (by decide) _ _ _ _ _ _ hc
  cases a with
  | nil =>
    cases hsplit
    have hsock : (taskMachine.run .start (taken ++ [.server (.frame 55 helloEnv)])).senders 2 =
        some (.waiting (broadcastFrame [123, 125] 2) ⟨0, by decide⟩ (List.finRange maxClients).tail
          54 6) := rfl
    rw [hsock] at hw
    cases hw
  | cons f a => cases a <;> cases hsplit

end Boatdash
