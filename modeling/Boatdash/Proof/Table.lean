import Boatdash.Lib.Slots
import Boatdash.Spec.HttpUi

/-!
# What the handler and the broadcast do to `ws_fds`

One lemma for each: `wsHandler_cases` (a data frame either fails and leaves the table,
or stores the socket) and `broadcast_eq` (a broadcast attempts one send for each used
slot and clears those whose send failed). The rest reads `wsStore` and the broadcast
through `Slots`: which members they add and remove, and that they keep the table free
of repetitions.
-/

namespace Boatdash

open Slots Finset

variable {t : WsFds} {fd : ℤ}

/-! ## `ws_handler` -/

theorem wsAlready_iff : wsAlready t fd = true ↔ ∃ i, t i = fd := by
  have key : ∀ (l : List (Fin maxClients)) (a : Bool),
      l.foldl (fun already i => if t i = fd then true else already) a = true ↔
        a = true ∨ ∃ i ∈ l, t i = fd := by
    intro l
    induction l with
    | nil => simp
    | cons i l ih =>
      intro a
      rw [List.foldl_cons, ih]
      by_cases h : t i = fd <;> simp [h]
  unfold wsAlready
  rw [key]; simp

theorem wsInsert_eq : wsInsert t fd (List.finRange maxClients) = put 0 t fd := by
  have key : ∀ l : List (Fin maxClients), wsInsert t fd l =
      match l.find? fun i => t i = 0 with
      | some i => Function.update t i fd
      | none => t := by
    intro l
    induction l with
    | nil => rfl
    | cons i l ih => by_cases h : t i = 0 <;> simp [wsInsert, h, ih]
  rw [key]
  unfold put firstFree
  cases (List.finRange maxClients).find? fun i => t i = 0 <;> rfl

/-- The two loops together: `fd` goes to the first free slot unless a slot holds it. -/
theorem wsStore_cases (t : WsFds) (fd : ℤ) :
    ((∃ i, t i = fd) ∧ wsStore t fd = t) ∨ ((¬ ∃ i, t i = fd) ∧ wsStore t fd = put 0 t fd) := by
  unfold wsStore
  by_cases h : ∃ i, t i = fd
  · have hfound : wsAlready t fd = true := wsAlready_iff.2 h
    left; rw [hfound]; exact ⟨h, rfl⟩
  · have hfound : wsAlready t fd = false := Bool.eq_false_iff.2 fun ha => h (wsAlready_iff.1 ha)
    right; rw [hfound]; exact ⟨h, wsInsert_eq⟩

theorem wsStore_eq (hfd : fd ≠ 0) : wsStore t fd = if fd ∈ members 0 t then t else put 0 t fd := by
  rcases wsStore_cases t fd with ⟨h, heq⟩ | ⟨h, heq⟩
  · have hmem : fd ∈ members 0 t := mem_members.2 ⟨hfd, h⟩
    rw [heq, if_pos hmem]
  · have hmem : fd ∉ members 0 t := fun hm => h (mem_members.1 hm).2
    rw [heq, if_neg hmem]

/-- The mark of a free slot is never stored. -/
theorem wsStore_zero : wsStore t 0 = t := by
  rcases wsStore_cases t 0 with ⟨-, heq⟩ | ⟨h, heq⟩
  · exact heq
  · rw [heq, put_full h]

theorem distinct_wsStore (hD : Distinct 0 t) : Distinct 0 (wsStore t fd) := by
  by_cases hfd : fd = 0
  · subst hfd; rw [wsStore_zero]; exact hD
  · rw [wsStore_eq hfd]
    split
    · exact hD
    · rename_i h; exact distinct_put hD h

/-- **The members after a stored frame.** -/
theorem members_wsStore (hD : Distinct 0 t) (hfd : fd ≠ 0) :
    members 0 (wsStore t fd) =
      if fd ∉ members 0 t ∧ (members 0 t).card < maxClients then insert fd (members 0 t)
      else members 0 t := by
  rw [wsStore_eq hfd]
  by_cases h : fd ∈ members 0 t
  · simp [h]
  · rw [if_neg h]
    by_cases hf : ∃ i, t i = 0
    · have hroom : (members 0 t).card < maxClients := (card_lt_iff hD).2 hf
      rw [if_pos ⟨h, hroom⟩, members_put hfd hf]
    · have hroom : ¬ (members 0 t).card < maxClients := mt (card_lt_iff hD).1 hf
      rw [if_neg fun h' => hroom h'.2, put_full hf]

/-- The socket is in the table afterwards if it was, or if a slot was free. -/
theorem mem_wsStore (hfd : fd ≠ 0) :
    fd ∈ members 0 (wsStore t fd) ↔ fd ∈ members 0 t ∨ ∃ i, t i = 0 := by
  rw [wsStore_eq hfd]
  by_cases h : fd ∈ members 0 t
  · simp only [h, if_true, true_or]
  · by_cases hf : ∃ i, t i = 0
    · rw [if_neg h, members_put hfd hf]; simp [hf]
    · rw [if_neg h, put_full hf]; simp only [h, hf, or_self]

/-- A slot is left as it was, or was free and takes the socket. -/
theorem wsStore_slot (t : WsFds) (fd : ℤ) (i : Fin maxClients) :
    wsStore t fd i = t i ∨ (t i = 0 ∧ wsStore t fd i = fd) := by
  by_cases hfd : fd = 0
  · subst hfd; rw [wsStore_zero]; left; rfl
  rw [wsStore_eq hfd]
  split
  · left; rfl
  by_cases hf : ∃ j, t j = 0
  · obtain ⟨j, hj, h⟩ := put_free hf fd
    rw [h]
    by_cases hij : i = j
    · subst hij; right; exact ⟨hj, by simp⟩
    · left; simp [hij]
  · rw [put_full hf]; left; rfl

theorem members_sub_wsStore (hfd : fd ≠ 0) : members 0 t ⊆ members 0 (wsStore t fd) := by
  rw [wsStore_eq hfd]
  split
  · exact subset_rfl
  · by_cases hf : ∃ i, t i = 0
    · rw [members_put hfd hf]; exact subset_insert _ _
    · rw [put_full hf]

theorem wsStore_sub : members 0 (wsStore t fd) ⊆ insert fd (members 0 t) := by
  intro x hx
  obtain ⟨hx0, i, rfl⟩ := mem_members.1 hx
  rcases wsStore_slot t fd i with h | ⟨-, h⟩
  · rw [h] at hx0 ⊢; exact mem_insert_of_mem (mem_members_slot hx0)
  · rw [h]; exact mem_insert_self _ _

/-- **A data frame, in two cases.** It returns `ESP_OK` and stores the socket, or fails and
leaves the table. -/
theorem wsHandler_cases {σ : Type} (env : WsEnv σ) (io : σ) (fd : ℤ) (t : WsFds) :
    ((wsHandler env io dataMethod fd t).ret = espOk ∧
        (wsHandler env io dataMethod fd t).wsFds = wsStore t fd) ∨
      ((wsHandler env io dataMethod fd t).ret ≠ espOk ∧
        (wsHandler env io dataMethod fd t).wsFds = t) := by
  have hm : dataMethod ≠ .get := by decide
  have hfail : espFail ≠ espOk := by decide
  have hmem : espErrNoMem ≠ espOk := by decide
  unfold wsHandler
  rw [if_neg hm]
  simp only
  split
  · -- no frame length
    right; exact ⟨hfail, rfl⟩
  split
  · -- no memory for the payload
    right; exact ⟨hmem, rfl⟩
  split
  · -- no payload
    right; exact ⟨hfail, rfl⟩
  · left; exact ⟨rfl, rfl⟩

/-- The handshake call returns `ESP_OK` and leaves the table. -/
theorem wsHandler_get {σ : Type} (env : WsEnv σ) (io : σ) (fd : ℤ) (t : WsFds) :
    wsHandler env io .get fd t = ⟨espOk, t, io, none⟩ := if_pos rfl

/-! ## `http_ui_broadcast_json` -/

variable {json : List UInt8} {len : UInt32} {send : Fin maxClients → EspErr} {ui : HttpUi}

/-- The table after a broadcast: a used slot whose send failed is free. -/
def sweep (send : Fin maxClients → EspErr) (t : WsFds) : WsFds :=
  fun i => if t i ≠ 0 ∧ send i ≠ espOk then 0 else t i

/-- The sends of a broadcast: one for each used slot. -/
def sendsOf (frame : WsFrame) (send : Fin maxClients → EspErr) (t : WsFds) : List WsSend :=
  (List.finRange maxClients).flatMap fun i => if t i ≠ 0 then [⟨t i, frame, send i⟩] else []

/-- **A broadcast**, with the server running. -/
theorem broadcast_eq (hs : ui.sServer.isSome) :
    httpUiBroadcastJson json len send ui =
      ({ ui with wsFds := sweep send ui.wsFds },
        sendsOf (broadcastFrame json len) send ui.wsFds) := by
  obtain ⟨srv, hsrv⟩ := Option.isSome_iff_exists.1 hs
  have hbody : broadcastSlot (broadcastFrame json len) send =
      slotwise (fun i x => if x ≠ 0 ∧ send i ≠ espOk then 0 else x)
        (fun i x => if x ≠ 0 then [⟨x, broadcastFrame json len, send i⟩] else []) := by
    funext acc i
    unfold broadcastSlot slotwise
    by_cases h0 : acc.1 i = 0
    · -- a free slot is skipped by the loop and written as it was by `slotwise`
      have hu : Function.update acc.1 i 0 = acc.1 := by
        rw [← h0, Function.update_eq_self]
      simp [h0, hu]
    · by_cases hr : send i = espOk <;> simp [h0, hr]
  unfold httpUiBroadcastJson
  rw [hsrv]
  simp only
  rw [hbody, foldl_slotwise]
  rfl

theorem sweep_slot (send : Fin maxClients → EspErr) (t : WsFds) (i : Fin maxClients) :
    sweep send t i = t i ∨ sweep send t i = 0 := by
  unfold sweep; split
  · right; rfl
  · left; rfl

theorem distinct_sweep (hD : Distinct 0 t) : Distinct 0 (sweep send t) :=
  distinct_of_sub hD (sweep_slot send t)

theorem mem_sendsOf {frame : WsFrame} {s : WsSend} :
    s ∈ sendsOf frame send t ↔ ∃ i, t i ≠ 0 ∧ s = ⟨t i, frame, send i⟩ := by
  unfold sendsOf
  rw [List.mem_flatMap]
  constructor
  · rintro ⟨i, -, hi⟩
    by_cases h : t i = 0
    · simp [h] at hi
    · exact ⟨i, h, by simpa [h] using hi⟩
  · rintro ⟨i, h, rfl⟩
    exact ⟨i, List.mem_finRange i, by simp [h]⟩

theorem exists_send_iff {frame : WsFrame} :
    (∃ s ∈ sendsOf frame send t, s.sock = fd) ↔ fd ∈ members 0 t := by
  constructor
  · rintro ⟨s, hs, rfl⟩
    obtain ⟨i, hi, rfl⟩ := mem_sendsOf.1 hs
    exact mem_members_slot hi
  · intro hm
    obtain ⟨hx, i, rfl⟩ := mem_members.1 hm
    have hs : ⟨t i, frame, send i⟩ ∈ sendsOf frame send t := mem_sendsOf.2 ⟨i, hx, rfl⟩
    exact ⟨_, hs, rfl⟩

/-- The sockets whose send failed. -/
def failedSocks (sends : List WsSend) : Finset ℤ :=
  ((sends.filter (·.ret ≠ espOk)).map (·.sock)).toFinset

theorem mem_failedSocks {sends : List WsSend} {x : ℤ} :
    x ∈ failedSocks sends ↔ ∃ s ∈ sends, s.ret ≠ espOk ∧ s.sock = x := by
  simp [failedSocks, and_assoc]

/-- **A broadcast removes exactly the members whose send failed.** -/
theorem members_sweep (hD : Distinct 0 t) (frame : WsFrame) :
    members 0 (sweep send t) = members 0 t \ failedSocks (sendsOf frame send t) := by
  ext x
  rw [mem_sdiff, mem_failedSocks]
  constructor
  · intro hx
    refine ⟨members_sub (sweep_slot send t) hx, ?_⟩
    rintro ⟨s, hs, hret, rfl⟩
    obtain ⟨i, hi, rfl⟩ := mem_sendsOf.1 hs
    -- a slot that remains is the one of the failed send, which is clear
    obtain ⟨hx0, j, hj⟩ := mem_members.1 hx
    have hjt : t j = t i := ((sweep_slot send t j).resolve_right (hj ▸ hx0)).symm.trans hj
    have hji : j = i := hD j i (hjt ▸ hi) hjt
    subst hji
    have hclear : sweep send t j = 0 := if_pos ⟨hi, hret⟩
    exact hi (hj.symm.trans hclear)
  · rintro ⟨hx, hno⟩
    obtain ⟨hx0, i, rfl⟩ := mem_members.1 hx
    have hs : ⟨t i, frame, send i⟩ ∈ sendsOf frame send t := mem_sendsOf.2 ⟨i, hx0, rfl⟩
    have hret : send i = espOk := by
      by_contra h; exact hno ⟨_, hs, h, rfl⟩
    have hkeep : sweep send t i = t i := if_neg fun h => h.2 hret
    exact mem_members.2 ⟨hx0, i, hkeep⟩

/-- The sockets sent to are the members, each once. -/
theorem sendsOf_socks (hD : Distinct 0 t) (frame : WsFrame) (send : Fin maxClients → EspErr) :
    ((sendsOf frame send t).map (·.sock)).Nodup ∧
      ((sendsOf frame send t).map (·.sock)).toFinset = members 0 t := by
  have hmap : (sendsOf frame send t).map (·.sock) =
      ((List.finRange maxClients).filter fun i => t i ≠ 0).map t := by
    unfold sendsOf
    induction List.finRange maxClients with
    | nil => rfl
    | cons i l ih =>
      rw [List.flatMap_cons, List.map_append, ih, List.filter_cons]
      by_cases h : t i = 0 <;> simp [h]
  constructor
  · rw [hmap]
    refine List.Nodup.map_on ?_ ((List.nodup_finRange _).filter _)
    intro i hi j _ hij
    exact hD i j (by simpa using (List.mem_filter.1 hi).2) hij
  · ext x
    rw [hmap, List.mem_toFinset, List.mem_map, mem_members]
    constructor
    · rintro ⟨i, hi, rfl⟩; exact ⟨by simpa using (List.mem_filter.1 hi).2, i, rfl⟩
    · rintro ⟨hx, i, rfl⟩; exact ⟨i, by simpa using hx, rfl⟩

end Boatdash
