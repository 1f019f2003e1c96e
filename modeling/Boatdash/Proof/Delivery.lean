import Boatdash.Proof.Interleave

/-!
# Overlapping broadcasts reach a client once

Broadcasts may overlap each other and the server's own task in any order.
`delivered_once`: **a client whose slot no failed send clears gets the frame of a broadcast
exactly once**, whatever happens to the other slots meanwhile. `Due` is the invariant: the
broadcast has still to come to the slot, or has sent its one frame to the client.
-/

namespace Boatdash

open Slots

/-- The slots a broadcast is not done with. -/
def Sender.left : Sender → List (Fin maxClients)
  | .reading _ is => is
  | .waiting _ i is _ _ => i :: is

/-- The frame a broadcast sends. -/
def Sender.frame : Sender → WsFrame
  | .reading frame _ => frame
  | .waiting frame _ _ _ _ => frame

/-- The slot a broadcast waits at. -/
def Sender.slot : Sender → Option (Fin maxClients)
  | .reading _ _ => none
  | .waiting _ i _ _ _ => some i

/-- The event does not clear the slot `i`: it is no failed result of a send made there. -/
def Tasks.Spares (i : Fin maxClients) (s : Tasks) : TaskEvent → Prop
  | .result p ret => ret = espOk ∨ (s.senders p).bind Sender.slot ≠ some i
  | _ => True

instance (i : Fin maxClients) (s : Tasks) : (e : TaskEvent) → Decidable (s.Spares i e)
  | .result p ret =>
    inferInstanceAs (Decidable (ret = espOk ∨ (s.senders p).bind Sender.slot ≠ some i))
  | .server _ | .call _ _ _ | .issue _ => isTrue trivial

/-- The sends to `fd` that a step of the broadcast `p` shows. -/
def sendsOne (p : ℕ) (fd : ℤ) : TaskEvent × List WsSend → List WsSend
  | (.result q _, sends) => if q = p then sends.filter (·.sock = fd) else []
  | _ => []

/-- The sends to `fd` of the broadcast `p`. -/
def sendsTo (p : ℕ) (fd : ℤ) (l : List (TaskEvent × List WsSend)) : List WsSend :=
  l.flatMap (sendsOne p fd)

variable {s : Tasks} {e : TaskEvent} {p : ℕ} {i : Fin maxClients} {fd : ℤ} {frame : WsFrame}
  {sent : List WsSend}

/-- A send in progress goes to `fd` exactly at the slot `i`. -/
def Sender.Aims (i : Fin maxClients) (fd : ℤ) : Sender → Prop
  | .reading _ _ => True
  | .waiting _ j _ sock _ => sock = fd ↔ j = i

/-- The broadcast `p` is not done with the slot `i` and has sent nothing to `fd`, the socket there,
or it is done with it and has sent `fd` its frame once. -/
structure Due (s : Tasks) (p : ℕ) (i : Fin maxClients) (fd : ℤ) (frame : WsFrame)
    (sent : List WsSend) (b : Sender) : Prop where
  sender : s.senders p = some b
  carries : b.frame = frame
  nodup : b.left.Nodup
  aims : b.Aims i fd
  ahead : i ∈ b.left → sent = []
  behind : i ∉ b.left → sent = [⟨fd, frame, espOk⟩]

/-- A slot that is spared stays. -/
theorem slot_spared (h : Served s.world) (hok : s.ok e) (hslot : s.world.ui.wsFds i = fd)
    (hfd : fd ≠ 0) (hspare : s.Spares i e) : (s.step e).world.ui.wsFds i = fd := by
  rcases slot_step h hok i with hst | ⟨h0, -⟩ | ⟨-, q, ret, sock, k, rfl, hret, frame, is, hw⟩
  · rw [hst, hslot]
  · exact absurd (hslot.symm.trans h0) hfd
  · rcases hspare with hgood | hno
    · exact absurd hgood hret
    · exact absurd (by rw [hw]; rfl) hno

/-- An event that is not a step of `p` leaves it. -/
theorem sender_other (s : Tasks) {e : TaskEvent} (hissue : e ≠ .issue p)
    (hresult : ∀ ret, e ≠ .result p ret) (hcall : ∀ json len, e ≠ .call p json len) :
    (s.step e).senders p = s.senders p := by
  have hset : ∀ (q : ℕ) (b : Option Sender), p ≠ q → (s.setSender q b).senders p = s.senders p :=
    fun q b hpq => Function.update_of_ne hpq ..
  cases e with
  | server f => rfl
  | call q json len =>
    have hpq : p ≠ q := by rintro rfl; exact hcall json len rfl
    exact hset q _ hpq
  | issue q =>
    have hpq : p ≠ q := by rintro rfl; exact hissue rfl
    simp only [Tasks.step, Tasks.act]
    split
    · split <;> exact hset q _ hpq
    · rfl
  | result q ret =>
    have hpq : p ≠ q := by rintro rfl; exact hresult ret rfl
    simp only [Tasks.step, Tasks.act]
    split
    · split <;> exact hset q _ hpq
    · rfl

/-- Reading a slot. -/
theorem due_issue (h : Distinct 0 s.world.ui.wsFds) (hslot : s.world.ui.wsFds i = fd) (hfd : fd ≠ 0)
    {b : Sender} (hdue : Due s p i fd frame sent b) :
    ∃ b', Due (s.step (.issue p)) p i fd frame sent b' := by
  have hself : ∀ b : Option Sender, (s.setSender p b).senders p = b :=
    fun b => Function.update_self ..
  cases b with
  | waiting frame' j is sock k =>
    have hsame : (s.step (.issue p)).senders p = s.senders p := by
      simp only [Tasks.step, Tasks.act, hdue.sender]
    exact ⟨_, hsame.trans hdue.sender, hdue.carries, hdue.nodup, hdue.aims, hdue.ahead, hdue.behind⟩
  | reading frame' is =>
    cases is with
    | nil =>
      have hsame : (s.step (.issue p)).senders p = s.senders p := by
        simp only [Tasks.step, Tasks.act, hdue.sender]
      exact ⟨_, hsame.trans hdue.sender, hdue.carries, hdue.nodup, hdue.aims, hdue.ahead, hdue.behind⟩
    | cons j is =>
      by_cases hj : s.world.ui.wsFds j = 0
      · -- a free slot is not the client's
        have hji : j ≠ i := by rintro rfl; exact hfd (hslot.symm.trans hj)
        have hmem : i ∈ j :: is → i ∈ is :=
          fun hi => (List.mem_cons.1 hi).resolve_left (Ne.symm hji)
        have hread : (s.step (.issue p)).senders p = some (.reading frame' is) := by
          simp only [Tasks.step, Tasks.act, hdue.sender]
          rw [if_neg (not_not.2 hj)]
          exact hself _
        exact ⟨_, hread, hdue.carries, (List.nodup_cons.1 hdue.nodup).2, trivial,
          fun hi => hdue.ahead (List.mem_cons_of_mem j hi), fun hi => hdue.behind (mt hmem hi)⟩
      · have hwait : (s.step (.issue p)).senders p =
            some (.waiting frame' j is (s.world.ui.wsFds j) s.now) := by
          simp only [Tasks.step, Tasks.act, hdue.sender]
          rw [if_pos hj]
          exact hself _
        refine ⟨_, hwait, hdue.carries, hdue.nodup, ?_, hdue.ahead, hdue.behind⟩
        constructor
        · intro heq
          exact h j i hj (heq.trans hslot.symm)
        · rintro rfl
          exact hslot

/-- Taking the result of a send. -/
theorem due_result {b : Sender} {ret : EspErr} (hdue : Due s p i fd frame sent b)
    (hspare : s.Spares i (.result p ret)) :
    ∃ b', Due (s.step (.result p ret)) p i fd frame
      (sent ++ (s.out (.result p ret)).filter (·.sock = fd)) b' := by
  cases b with
  | reading frame' is =>
    have hsame : (s.step (.result p ret)).senders p = s.senders p := by
      simp only [Tasks.step, Tasks.act, hdue.sender]
    have hout : s.out (.result p ret) = [] := by simp only [Tasks.out, hdue.sender]
    rw [hout, List.filter_nil, List.append_nil]
    exact ⟨_, hsame.trans hdue.sender, hdue.carries, hdue.nodup, hdue.aims, hdue.ahead, hdue.behind⟩
  | waiting frame' j is sock k =>
    have hread : (s.step (.result p ret)).senders p = some (.reading frame' is) := by
      rw [Tasks.step, act_result hdue.sender]
      split <;> exact Function.update_self ..
    have hout : s.out (.result p ret) = [⟨sock, frame', ret⟩] := by
      simp only [Tasks.out, hdue.sender]
    have hframe : frame' = frame := hdue.carries
    have haims : sock = fd ↔ j = i := hdue.aims
    obtain ⟨hj, hnd⟩ := List.nodup_cons.1 hdue.nodup
    rw [hout]
    by_cases hji : j = i
    · -- the client's own slot: the send was accepted
      subst hji
      have hsock : sock = fd := haims.2 rfl
      have hret : ret = espOk := by
        rcases hspare with hgood | hno
        · exact hgood
        · exact absurd (by rw [hdue.sender]; rfl) hno
      have hnone : sent = [] := hdue.ahead List.mem_cons_self
      subst hsock hret hframe hnone
      refine ⟨_, hread, hdue.carries, hnd, trivial, fun hi => absurd hi hj, fun _ => ?_⟩
      simp
    · have hsock : sock ≠ fd := mt haims.1 hji
      have hfilter : [(⟨sock, frame', ret⟩ : WsSend)].filter (·.sock = fd) = [] := by simp [hsock]
      have hmem : i ∈ j :: is → i ∈ is :=
        fun hi => (List.mem_cons.1 hi).resolve_left (Ne.symm hji)
      rw [hfilter, List.append_nil]
      exact ⟨_, hread, hdue.carries, hnd, trivial,
        fun hi => hdue.ahead (List.mem_cons_of_mem j hi), fun hi => hdue.behind (mt hmem hi)⟩

/-- **One step of anyone.** -/
theorem due_step (h : Timed s) (hok : s.ok e) (hslot : s.world.ui.wsFds i = fd) (hfd : fd ≠ 0)
    (hspare : s.Spares i e) {b : Sender} (hdue : Due s p i fd frame sent b) :
    ∃ b', Due (s.step e) p i fd frame (sent ++ sendsOne p fd (e, s.out e)) b' := by
  by_cases hissue : e = .issue p
  · subst hissue
    rw [show sendsOne p fd (.issue p, s.out (.issue p)) = [] from rfl, List.append_nil]
    exact due_issue h.served.distinct hslot hfd hdue
  by_cases hresult : ∃ ret, e = .result p ret
  · obtain ⟨ret, rfl⟩ := hresult
    have hone : sendsOne p fd (.result p ret, s.out (.result p ret)) =
        (s.out (.result p ret)).filter (·.sock = fd) := if_pos rfl
    rw [hone]
    exact due_result hdue hspare
  · -- a step of the server or of another broadcast
    have hcall : ∀ json len, e ≠ .call p json len := by
      rintro json len rfl
      have hnone : (s.senders p).isNone := hok
      rw [hdue.sender] at hnone
      cases hnone
    have hsame := sender_other s hissue (fun ret he => hresult ⟨ret, he⟩) hcall
    have hone : sendsOne p fd (e, s.out e) = [] := by
      cases e with
      | result q ret =>
        have hqp : q ≠ p := by rintro rfl; exact hresult ⟨ret, rfl⟩
        exact if_neg hqp
      | _ => rfl
    rw [hone, List.append_nil]
    exact ⟨b, hsame.trans hdue.sender, hdue.carries, hdue.nodup, hdue.aims, hdue.ahead, hdue.behind⟩

/-- **A run.** -/
theorem due_run {es : List TaskEvent} (h : Timed s) (hok : taskMachine.Along Tasks.ok s es)
    (hslot : s.world.ui.wsFds i = fd) (hfd : fd ≠ 0)
    (hspare : taskMachine.Along (Tasks.Spares i) s es) {b : Sender}
    (hdue : Due s p i fd frame sent b) :
    ∃ b', Due (taskMachine.run s es) p i fd frame
      (sent ++ sendsTo p fd (taskMachine.log s es)) b' := by
  induction es generalizing s sent b with
  | nil =>
    rw [show sendsTo p fd (taskMachine.log s []) = [] from rfl, List.append_nil]
    exact ⟨b, hdue⟩
  | cons e es ih =>
    obtain ⟨b', hdue'⟩ := due_step h hok.1 hslot hfd hspare.1 hdue
    obtain ⟨b'', hrun⟩ := ih (timed_step h hok.1) hok.2
      (slot_spared h.served hok.1 hslot hfd hspare.1) hspare.2 hdue'
    rw [List.append_assoc] at hrun
    exact ⟨b'', hrun⟩

/-- **A client whose slot is spared gets the frame of a broadcast exactly once**: from the call of
the broadcast `p` to the end of its loop, with any steps of the server and of other broadcasts in
between. -/
theorem delivered_once (pre mid : List TaskEvent) (p : ℕ) (json : List UInt8) (len : UInt32)
    (i : Fin maxClients) (fd : ℤ)
    (hok : taskMachine.Along Tasks.ok .start (pre ++ .call p json len :: mid))
    (hslot : (taskMachine.run .start pre).world.ui.wsFds i = fd) (hfd : fd ≠ 0)
    (hspare : taskMachine.Along (Tasks.Spares i)
      ((taskMachine.run .start pre).step (.call p json len)) mid)
    (hend : (taskMachine.run .start (pre ++ .call p json len :: mid)).senders p =
      some (.reading (broadcastFrame json len) [])) :
    sendsTo p fd (taskMachine.log ((taskMachine.run .start pre).step (.call p json len)) mid) =
      [⟨fd, broadcastFrame json len, espOk⟩] := by
  set s := taskMachine.run .start pre with hs
  have hT : Timed s := timed_run hok.left
  obtain ⟨hcall, hmid⟩ := (Machine.along_append.1 hok).2
  obtain ⟨srv, hsrv⟩ := Option.isSome_iff_exists.1 hT.served.running
  have hread : (s.step (.call p json len)).senders p =
      some (.reading (broadcastFrame json len) (List.finRange maxClients)) := by
    simp only [Tasks.step, Tasks.act, hsrv]; exact Function.update_self ..
  have hdue : Due (s.step (.call p json len)) p i fd (broadcastFrame json len) []
      (.reading (broadcastFrame json len) (List.finRange maxClients)) :=
    ⟨hread, rfl, List.nodup_finRange _, trivial, fun _ => rfl,
      fun hno => absurd (List.mem_finRange i) hno⟩
  obtain ⟨b, hrun⟩ := due_run (timed_step hT hcall) hmid
    ((slot_spared hT.served hcall hslot hfd trivial)) hfd hspare hdue
  rw [Machine.run_append, Machine.run_cons] at hend
  have hb : b = .reading (broadcastFrame json len) [] :=
    Option.some.inj (hrun.sender.symm.trans hend)
  rw [hb] at hrun
  exact hrun.behind List.not_mem_nil

/-- Two clients, in the first two slots. -/
def twoClients : List TaskEvent :=
  [.server (.opened 54), .server (.handshake 54 helloEnv), .server (.frame 54 helloEnv),
    .server (.opened 55), .server (.handshake 55 helloEnv), .server (.frame 55 helloEnv)]

/-- Two broadcasts over all slots, in turns; the first slot's sends fail. -/
def bothSweep : List TaskEvent :=
  .call 2 [91, 93] 2 :: (List.finRange maxClients).flatMap fun i =>
    let ret := if i.val = 0 then espFail else espOk
    [.issue 1, .issue 2, .result 1 ret, .result 2 ret]

/-- The second client gets the frame of the first broadcast once. -/
theorem delivered_once_second :
    sendsTo 1 55 (taskMachine.log ((taskMachine.run .start twoClients).step (.call 1 [123, 125] 2))
      bothSweep) = [⟨55, broadcastFrame [123, 125] 2, espOk⟩] :=
  delivered_once twoClients bothSweep 1 [123, 125] 2 ⟨1, by decide⟩ 55 (by decide) (by decide)
    (by decide) (by decide) rfl

end Boatdash
