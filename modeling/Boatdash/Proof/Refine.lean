import Boatdash.Lib.Registry
import Boatdash.Proof.Table
import Boatdash.Spec.Sessions

/-!
# `ws_fds` refines a bounded registry

`regEvent` reads a call with its result as an event of the registry: a data frame that
returned `ESP_OK` joins, a broadcast publishes its frame and loses the sockets whose send
failed. `Refines` relates the table to the set of registered clients; `refines_step` keeps
it over one call and `Machine.run_sim` over a run.

`wsFds_refines`: **over any run of calls the table is the registry, a broadcast sends its
frame once to each registered client, and between its registration and its first failed
send a client is sent exactly the broadcasts.**
-/

namespace Boatdash

open Slots

/-- The event of the registry a call stands for. -/
def regEvent : UiEvent × CallOut → Registry.Event ℤ WsFrame
  | (.frame fd _, .returned ret) => if ret = espOk then .join fd else .skip
  | (.broadcast json len _, .sent sends) => .publish (broadcastFrame json len) (failedSocks sends)
  | _ => .skip

/-- The registered clients after the calls of a log, from the empty set. -/
def registered (l : List (UiEvent × CallOut)) : Finset ℤ :=
  (Registry.machine ℤ WsFrame maxClients).run ∅ (l.map regEvent)

/-- The frames attempted to a socket, in order. -/
def attempts (fd : ℤ) (l : List (UiEvent × CallOut)) : List WsFrame :=
  l.flatMap fun p => (p.2.sends.filter fun s => s.sock = fd).map (·.frame)

/-- The frames of the broadcasts, in order. -/
def broadcasts (es : List UiEvent) : List WsFrame :=
  es.filterMap fun
    | .broadcast json len _ => some (broadcastFrame json len)
    | _ => none

/-- The calls considered: a data frame's socket is not `0`. -/
def UiEvent.ok (_ : HttpUi) : UiEvent → Prop
  | .frame fd _ => fd ≠ 0
  | _ => True

/-- The server runs, the table has no repetitions and stands for `R`. -/
structure Refines (ui : HttpUi) (R : Finset ℤ) : Prop where
  running : ui.sServer.isSome
  distinct : Distinct 0 ui.wsFds
  members : members 0 ui.wsFds = R

variable {ui : HttpUi} {R : Finset ℤ}

/-- **One call.** -/
theorem refines_step (h : Refines ui R) {e : UiEvent} (he : UiEvent.ok ui e) :
    Refines (ui.step e) (Registry.step maxClients R (regEvent (e, ui.out e))) := by
  cases e with
  | frame fd env =>
    simp only [HttpUi.step, HttpUi.out, regEvent]
    rcases wsHandler_cases env () fd ui.wsFds with ⟨hret, htab⟩ | ⟨hret, htab⟩
    · rw [htab, if_pos hret]
      refine ⟨h.running, distinct_wsStore h.distinct, ?_⟩
      rw [members_wsStore h.distinct he, h.members]; rfl
    · rw [htab, if_neg hret]; exact h
  | broadcast json len send =>
    simp only [HttpUi.step, HttpUi.out, regEvent]
    rw [broadcast_eq h.running]
    refine ⟨h.running, distinct_sweep h.distinct, ?_⟩
    rw [← h.members]; exact members_sweep h.distinct _

/-- A call loses the sockets whose send failed in it, and no other. -/
theorem mem_regEvent_lost {p : UiEvent × CallOut} {fd : ℤ} (h : fd ∈ (regEvent p).lost) :
    fd ∈ failedSocks p.2.sends := by
  unfold regEvent at h
  split at h
  · split at h <;> exact absurd h (Finset.notMem_empty _)
  · exact h
  · exact absurd h (Finset.notMem_empty _)

/-- The registry, reading calls with their results. -/
def logRegistry : Machine (Finset ℤ) (UiEvent × CallOut) Unit where
  step R p := Registry.step maxClients R (regEvent p)
  out _ _ := ()

theorem logRegistry_run (l : List (UiEvent × CallOut)) (R : Finset ℤ) :
    logRegistry.run R l = (Registry.machine ℤ WsFrame maxClients).run R (l.map regEvent) := by
  induction l generalizing R with
  | nil => rfl
  | cons p l ih => exact ih _

/-- **A run of calls.** -/
theorem refines_run (h : Refines ui R) {es : List UiEvent} (he : uiMachine.Along UiEvent.ok ui es) :
    Refines (uiMachine.run ui es)
      ((Registry.machine ℤ WsFrame maxClients).run R ((uiMachine.log ui es).map regEvent)) := by
  rw [← logRegistry_run]
  exact Machine.run_sim (a := logRegistry) (R := Refines) (fun _ _ _ hR hok => refines_step hR hok)
    es ui R h he

/-! ## What a client is sent -/

/-- The frames a broadcast attempts to a socket: its own, if the socket is registered. -/
theorem attempts_sendsOf {t : WsFds} (hD : Distinct 0 t) (frame : WsFrame)
    (send : Fin maxClients → EspErr) (fd : ℤ) :
    ((sendsOf frame send t).filter fun s => s.sock = fd).map (·.frame) =
      if fd ∈ Slots.members 0 t then [frame] else [] := by
  obtain ⟨hnd, hset⟩ := sendsOf_socks hD frame send
  have hall : ∀ s ∈ sendsOf frame send t, s.frame = frame := by
    intro s hs
    obtain ⟨i, -, rfl⟩ := mem_sendsOf.1 hs
    rfl
  -- one frame for each time the socket occurs, and it occurs at most once
  have hcount : ∀ l : List WsSend, (∀ s ∈ l, s.frame = frame) →
      (l.filter fun s => s.sock = fd).map (·.frame) =
        List.replicate ((l.map (·.sock)).count fd) frame := by
    intro l
    induction l with
    | nil => intro _; rfl
    | cons s l ih =>
      intro hl
      have hih := ih fun s hs => hl s (List.mem_cons_of_mem _ hs)
      by_cases hs : s.sock = fd
      · simp only [List.filter_cons, hs, decide_true, if_true, List.map_cons, List.count_cons_self,
          List.replicate_succ, hih, hl s List.mem_cons_self]
      · simp only [List.filter_cons, hs, decide_false, Bool.false_eq_true, if_false, List.map_cons,
          List.count_cons_of_ne hs, hih]
  rw [hcount _ hall]
  by_cases hm : fd ∈ (sendsOf frame send t).map (·.sock)
  · have hmem : fd ∈ Slots.members 0 t := hset ▸ List.mem_toFinset.2 hm
    rw [if_pos hmem, List.count_eq_one_of_mem hnd hm]; rfl
  · have hmem : fd ∉ Slots.members 0 t := fun h => hm (List.mem_toFinset.1 (hset ▸ h))
    rw [if_neg hmem, List.count_eq_zero_of_not_mem hm]; rfl

/-- The frames a call attempts to a socket are those the registry sends it. -/
theorem attempts_one (h : Refines ui R) (e : UiEvent) (fd : ℤ) :
    ((ui.out e).sends.filter fun s => s.sock = fd).map (·.frame) =
      Registry.sentTo fd [(regEvent (e, ui.out e),
        (Registry.machine ℤ WsFrame maxClients).out R (regEvent (e, ui.out e)))] := by
  cases e with
  | frame fd' env =>
    simp only [HttpUi.out, CallOut.sends, regEvent]
    split <;> simp [Registry.sentTo, Registry.machine]
  | broadcast json len send =>
    simp only [HttpUi.out, CallOut.sends, regEvent]
    rw [broadcast_eq h.running, attempts_sendsOf h.distinct, h.members]
    by_cases hR : fd ∈ R <;> simp [Registry.sentTo, Registry.machine, hR, Registry.Event.message]

theorem attempts_run (fd : ℤ) : ∀ (es : List UiEvent) (ui : HttpUi) (R : Finset ℤ), Refines ui R →
    uiMachine.Along UiEvent.ok ui es →
    attempts fd (uiMachine.log ui es) = Registry.sentTo fd
      ((Registry.machine ℤ WsFrame maxClients).log R ((uiMachine.log ui es).map regEvent)) := by
  intro es
  induction es with
  | nil => intro ui R _ _; rfl
  | cons e es ih =>
    intro ui R h hl
    have hone := attempts_one h e fd
    have hrest := ih _ _ (refines_step h hl.1) hl.2
    have happ : ∀ (p : Registry.Event ℤ WsFrame × Finset ℤ) l,
        Registry.sentTo fd (p :: l) = Registry.sentTo fd [p] ++ Registry.sentTo fd l := by
      intro p l; rw [← List.singleton_append, Registry.sentTo, List.filterMap_append]; rfl
    rw [Machine.log_cons, List.map_cons, Machine.log_cons, happ]
    exact congrArg₂ (· ++ ·) hone hrest

/-- The registry publishes the frames of the broadcasts. -/
theorem published_log (es : List UiEvent) (ui : HttpUi) :
    Registry.published ((uiMachine.log ui es).map regEvent) = broadcasts es := by
  induction es generalizing ui with
  | nil => rfl
  | cons e es ih =>
    have hih := ih (ui.step e)
    cases e with
    | frame fd env =>
      have hm : (regEvent (.frame fd env, ui.out (.frame fd env))).message = none := by
        simp only [HttpUi.out, regEvent]; split <;> rfl
      rw [Machine.log_cons, List.map_cons, Registry.published, uiMachine_out,
        List.filterMap_cons_none hm]
      exact hih
    | broadcast json len send => exact congrArg (broadcastFrame json len :: ·) hih

/-! ## The refinement -/

/-- What the table promises over the run `es` from `ui`. -/
structure TableIsRegistry (ui : HttpUi) (es : List UiEvent) : Prop where
  /-- The nonzero entries are pairwise distinct. -/
  distinct : Distinct 0 (uiMachine.run ui es).wsFds
  /-- Their set is the set of registered clients. -/
  set : members 0 (uiMachine.run ui es).wsFds = registered (uiMachine.log ui es)
  /-- A broadcast attempts one send of its frame to each registered client, and no other. -/
  sends : ∀ pre json len send post, es = pre ++ .broadcast json len send :: post →
    ((uiMachine.out (uiMachine.run ui pre) (.broadcast json len send)).sends.map (·.sock)).Nodup ∧
      ((uiMachine.out (uiMachine.run ui pre) (.broadcast json len send)).sends.map
        (·.sock)).toFinset = registered (uiMachine.log ui pre) ∧
      ∀ s ∈ (uiMachine.out (uiMachine.run ui pre) (.broadcast json len send)).sends,
        s.frame = broadcastFrame json len
  /-- From a point where a client is registered, and while no send to it failed before the
  last call, the frames attempted to it are the broadcasts. -/
  exact : ∀ fd pre mid e post, es = pre ++ (mid ++ [e]) ++ post →
    fd ∈ registered (uiMachine.log ui pre) →
    (∀ p ∈ uiMachine.log (uiMachine.run ui pre) mid, fd ∉ failedSocks p.2.sends) →
    attempts fd (uiMachine.log (uiMachine.run ui pre) (mid ++ [e])) = broadcasts (mid ++ [e])

/-- **`ws_fds` is the registry**, over any run of calls from the all-zero table with the
server running. -/
theorem wsFds_refines (srv : Httpd WsFds Handler) (es : List UiEvent)
    (hes : ∀ fd env, UiEvent.frame fd env ∈ es → fd ≠ 0) :
    TableIsRegistry { sServer := some srv } es := by
  have hstart : Refines { sServer := some srv } ∅ := ⟨rfl, distinct_empty, members_empty⟩
  have halong : ∀ fs : List UiEvent, (∀ e ∈ fs, e ∈ es) →
      ∀ ui, uiMachine.Along UiEvent.ok ui fs := by
    intro fs hfs ui
    rw [Machine.along_iff]
    rintro pre e post rfl
    cases e with
    | frame fd env => exact hes fd env (hfs _ (by simp))
    | broadcast json len send => trivial
  have hat : ∀ pre, (∀ e ∈ pre, e ∈ es) →
      Refines (uiMachine.run { sServer := some srv } pre)
        (registered (uiMachine.log { sServer := some srv } pre)) :=
    fun pre hpre => refines_run hstart (halong pre hpre _)
  refine ⟨(hat es fun _ h => h).distinct, (hat es fun _ h => h).members, ?_, ?_⟩
  · rintro pre json len send post rfl
    have h := hat pre fun e he => List.mem_append_left _ he
    simp only [uiMachine_out, HttpUi.out, CallOut.sends]
    rw [broadcast_eq h.running, ← h.members]
    obtain ⟨h1, h2⟩ := sendsOf_socks h.distinct (broadcastFrame json len) send
    refine ⟨h1, h2, fun s hs => ?_⟩
    obtain ⟨i, -, rfl⟩ := mem_sendsOf.1 hs
    rfl
  · rintro fd pre mid e post rfl hfd hno
    have h := hat pre fun e he => by simp [he]
    rw [attempts_run fd _ _ _ h (halong _ (fun x hx => by simp at hx ⊢; tauto) _),
      ← published_log _ (uiMachine.run { sServer := some srv } pre),
      Machine.log_append, List.map_append]
    refine Registry.sentTo_eq_published _ _ hfd ?_ _
    intro f hf
    obtain ⟨p, hp, rfl⟩ := List.mem_map.1 hf
    exact fun hl => hno p hp (mem_regEvent_lost hl)

/-- A client registers and is lost to a failed send, and another registers. -/
def turnover : List UiEvent :=
  [.frame 54 helloEnv, .broadcast [123, 125] 2 fun _ => espFail, .frame 55 helloEnv]

theorem wsFds_refines_turnover :
    TableIsRegistry { sServer := some ⟨httpdDefaultConfig WsFds, [ws]⟩ } turnover := by
  refine wsFds_refines _ turnover fun fd env h => ?_
  simp only [turnover, List.mem_cons, UiEvent.frame.injEq, reduceCtorEq, List.not_mem_nil,
    false_or, or_false] at h
  rcases h with ⟨rfl, -⟩ | ⟨rfl, -⟩ <;> decide

end Boatdash
