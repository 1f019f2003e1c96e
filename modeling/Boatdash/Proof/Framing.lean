import Boatdash.Lib.CString
import Boatdash.Proof.Table
import Boatdash.Spec.Connection

/-!
# What `ws_handler` leaves on the connection

The first `httpd_ws_recv_frame` reads the header of a frame and the second its payload,
unless the length is `0`: then the second one takes the header for unread, and reads into the
next frame. One lemma for each way a call goes (`call_no_memory`, `call_frame`,
`call_empty_last`, `call_empty`), and the frames in a row by induction.

* `framing_kept_iff`: **the calls keep the framing exactly when no frame that gets its block is
  empty with another one behind it, or has the length `2 ^ 32 - 1`**, for which `len + 1` is `0`.
-/

namespace Boatdash

open WebSocket

variable {fd : ℤ} {l : Link} {heap : Heap} {block : List UInt8}
  {f : TextFrame} {fs : List TextFrame}

/-- What `ws_handler` asks `malloc` for. -/
def TextFrame.blockSize (f : TextFrame) : UInt32 := UInt32.ofNat f.payload.length + 1

theorem TextFrame.toNat_len (f : TextFrame) :
    (UInt32.ofNat f.payload.length).toNat = f.payload.length := by
  have hsize := f.size
  rw [UInt32.toNat_ofNat']
  omega

theorem TextFrame.toNat_blockSize (f : TextFrame) :
    f.blockSize.toNat = (f.payload.length + 1) % 2 ^ 32 := by
  unfold blockSize
  rw [UInt32.toNat_add, f.toNat_len]
  rfl

theorem TextFrame.len_eq_zero (f : TextFrame) :
    UInt32.ofNat f.payload.length = 0 ↔ f.payload.length = 0 := by
  rw [← UInt32.toNat_inj, f.toNat_len]
  rfl

@[simp] theorem stream_cons (f : TextFrame) (fs : List TextFrame) :
    stream (f :: fs) = 129 :: (f.wire ++ stream fs) := rfl

/-! ## `httpd_ws_recv_frame` -/

/-- A call for the length: the header of the frame is read. -/
theorem recv_length (f : TextFrame) (c : Conn) (rest : List UInt8) :
    httpdWsRecvFrame { c with input := f.wire ++ rest } ⟨.text, none, 0⟩ 0 =
      (espOk, ⟨.text, none, UInt32.ofNat f.payload.length⟩,
        { c with key := f.key, input := mask f.key f.payload ++ rest }) := by
  have hread := readHeader_wire f.toClientFrame rest
  simp only [httpdWsRecvFrame, hread, if_true, Option.map_some]

/-- A call for the payload, of a frame that is not empty. -/
theorem recv_payload (f : TextFrame) (h : f.payload.length ≠ 0) (n : ℕ) (block rest : List UInt8) :
    httpdWsRecvFrame ⟨mask f.key f.payload ++ rest, f.key, n⟩
        ⟨.text, some block, UInt32.ofNat f.payload.length⟩ (UInt32.ofNat f.payload.length) =
      (espOk, ⟨.text, some (CString.store block f.payload), UInt32.ofNat f.payload.length⟩,
        ⟨rest, f.key, n⟩) := by
  have hne : UInt32.ofNat f.payload.length ≠ 0 := fun h0 => h (f.len_eq_zero.1 h0)
  have hmask : (mask f.key f.payload).length = f.payload.length := length_mask ..
  have hlong : ¬ (mask f.key f.payload ++ rest).length < f.payload.length := by
    rw [List.length_append]; omega
  have htake : (mask f.key f.payload ++ rest).take f.payload.length = mask f.key f.payload := by
    rw [← hmask]; exact List.take_left
  have hdrop : (mask f.key f.payload ++ rest).drop f.payload.length = rest := by
    rw [← hmask]; exact List.drop_left
  have hself : ¬ UInt32.ofNat f.payload.length < UInt32.ofNat f.payload.length :=
    UInt32.lt_irrefl _
  simp only [httpdWsRecvFrame, if_neg hne, if_neg hself, f.toNat_len, if_neg hlong, htake, hdrop,
    mask_mask]

/-- The call for the payload of an empty frame: it reads a header once more. -/
theorem recv_again (c : Conn) (block : List UInt8) :
    httpdWsRecvFrame c ⟨.text, some block, 0⟩ 0 =
      match readHeader c.input with
      | none => (espFail, ⟨.text, some block, 0⟩, { c with input := [] })
      | some (n, key, rest) =>
        (espOk, ⟨.text, some block, UInt32.ofNat n⟩, { c with key := key, input := rest }) := by
  unfold httpdWsRecvFrame
  cases readHeader c.input <;> rfl

/-! ## One call -/

/-- An open session with the frames still queued. -/
structure Link.Queues (l : Link) (frames : List TextFrame) : Prop where
  isOpen : l.isOpen = true
  input : l.conn.input = stream frames

/-- What the handler does once it has the length: `malloc`, and the second call. -/
theorem call_eq (fd : ℤ) (h : l.Queues (f :: fs)) (heap : Heap) :
    l.call fd heap = some (match heap.malloc f.blockSize with
      | none => ⟨espErrNoMem, l.wsFds,
          { l.conn with key := f.key, input := mask f.key f.payload ++ stream fs }, none⟩
      | some block =>
        match httpdWsRecvFrame ⟨mask f.key f.payload ++ stream fs, f.key, block.length⟩
          ⟨.text, some block, UInt32.ofNat f.payload.length⟩ (UInt32.ofNat f.payload.length) with
        | (err, pkt, io) =>
          if err ≠ espOk then ⟨espFail, l.wsFds, io, none⟩
          else ⟨espOk, wsStore l.wsFds fd, io,
            some { pkt with payload := pkt.payload.map (·.set pkt.len.toNat 0) }⟩) := by
  have hin : l.conn.input = 129 :: (f.wire ++ stream fs) := h.input
  have hdata : dataMethod ≠ .get := by decide
  have hok : ¬ espOk ≠ espOk := fun hne => hne rfl
  have hrecv := recv_length f l.conn (stream fs)
  have hcall : l.call fd heap = some (wsHandler (connEnv heap)
      { l.conn with input := f.wire ++ stream fs } dataMethod fd l.wsFds) := by
    unfold Link.call
    rw [h.isOpen, hin]
  rw [hcall]
  unfold wsHandler
  rw [if_neg hdata]
  simp only [connEnv, hrecv, if_neg hok, TextFrame.blockSize]
  cases heap.malloc (UInt32.ofNat f.payload.length + 1) with
  | none => rfl
  | some block => rfl

/-- No block: the handler fails. -/
theorem call_no_memory (fd : ℤ) (h : l.Queues (f :: fs)) (hm : heap.malloc f.blockSize = none) :
    ∃ r, l.call fd heap = some r ∧ r.ret ≠ espOk := by
  have hcall := call_eq fd h heap
  have hret : espErrNoMem ≠ espOk := by decide
  rw [hm] at hcall
  exact ⟨_, hcall, hret⟩

/-- What a call leaves that takes its frame. -/
def frameTaken (fd : ℤ) (l : Link) (f : TextFrame) (fs : List TextFrame) (block : List UInt8) :
    WsOutcome Conn :=
  ⟨espOk, wsStore l.wsFds fd, ⟨stream fs, f.key, block.length⟩,
    some ⟨.text, some ((CString.store block f.payload).set f.payload.length 0),
      UInt32.ofNat f.payload.length⟩⟩

/-- **A frame that is not empty** is taken off the connection. -/
theorem call_frame (fd : ℤ) (h : l.Queues (f :: fs)) (hne : f.payload.length ≠ 0)
    (hm : heap.malloc f.blockSize = some block) :
    l.call fd heap = some (frameTaken fd l f fs block) := by
  have hok : ¬ espOk ≠ espOk := fun h => h rfl
  have hrecv := recv_payload f hne block.length block (stream fs)
  rw [call_eq fd h heap, hm]
  simp only [frameTaken, hrecv, if_neg hok, Option.map_some, f.toNat_len]

/-- An empty frame has its header read twice. -/
theorem call_again (fd : ℤ) (h : l.Queues (f :: fs)) (h0 : f.payload.length = 0)
    (hm : heap.malloc f.blockSize = some block) :
    ∃ r, l.call fd heap = some r ∧
      match readHeader (stream fs) with
      | none => r.ret ≠ espOk
      | some (_, _, rest) => r.ret = espOk ∧ r.io.input = rest := by
  have hlen : UInt32.ofNat f.payload.length = 0 := f.len_eq_zero.2 h0
  have hret : espFail ≠ espOk := by decide
  have hnil : mask f.key f.payload = [] := by
    rw [← List.length_eq_zero_iff, length_mask, h0]
  have hcall := call_eq fd h heap
  rw [hm, hlen, hnil, List.nil_append] at hcall
  simp only [recv_again] at hcall
  refine ⟨_, hcall, ?_⟩
  cases readHeader (stream fs) with
  | none => exact hret
  | some next => exact ⟨rfl, rfl⟩

/-- **An empty frame with nothing behind it**: there is no second header, and the call fails. -/
theorem call_empty_last (fd : ℤ) (h : l.Queues [f]) (h0 : f.payload.length = 0)
    (hm : heap.malloc f.blockSize = some block) :
    ∃ r, l.call fd heap = some r ∧ r.ret ≠ espOk :=
  call_again fd h h0 hm

/-- **An empty frame with another behind it**: the call takes five bytes of that one. -/
theorem call_empty (fd : ℤ) {f' : TextFrame} (h : l.Queues (f :: f' :: fs))
    (h0 : f.payload.length = 0) (hm : heap.malloc f.blockSize = some block) :
    ∃ r, l.call fd heap = some r ∧ r.ret = espOk ∧
      r.io.input = (f'.wire ++ stream fs).drop 4 := by
  have hfour : 4 ≤ (f'.wire ++ stream fs).length := by
    have hkey := f'.key_le_wire
    rw [List.length_append]
    omega
  obtain ⟨r, hr, hret⟩ := call_again fd h h0 hm
  rw [stream_cons, readHeader_opcode hfour] at hret
  exact ⟨r, hr, hret⟩

/-! ## The frames in a row -/

/-- A call that took its frame off the connection, and read the payload and a terminator in a
block with room for them. -/
structure Framed (l : Link) (r : WsOutcome Conn) (f : TextFrame) (fs : List TextFrame) : Prop where
  own : l.conn.input = stream (f :: fs)
  consumed : r.io.input = stream fs
  message : r.msg.bind (·.payload) = some (f.payload ++ [0])
  room : f.payload.length < r.io.allocated

/-- **The framing is kept**: in every run of the calls, one for each frame, each of them that
succeeds is framed. -/
def KeepsFraming (fd : ℤ) (l : Link) (frames : List TextFrame) (heaps : List Heap) : Prop :=
  ∀ pre heap post, heaps = pre ++ heap :: post →
    ∀ r, (linkMachine fd).out ((linkMachine fd).run l pre) heap = some r → r.ret = espOk →
      ∃ f fs, frames.drop pre.length = f :: fs ∧ Framed ((linkMachine fd).run l pre) r f fs

/-- Each frame up to the first that gets no block leaves room for the terminator in 32 bits, and
is the last one if it is empty. -/
def Receivable : List TextFrame → List Heap → Prop
  | f :: fs, heap :: heaps =>
    (heap.malloc f.blockSize).isSome →
      (f.payload.length ≠ 0 ∨ fs = []) ∧ f.payload.length + 1 < 2 ^ 32 ∧ Receivable fs heaps
  | _, _ => True

variable {frames : List TextFrame} {heaps : List Heap}

/-- One call, and the rest of them. -/
theorem keeps_cons : KeepsFraming fd l (f :: fs) (heap :: heaps) ↔
    (∀ r, l.call fd heap = some r → r.ret = espOk → Framed l r f fs) ∧
      KeepsFraming fd (l.step fd heap) fs heaps := by
  constructor
  · intro h
    refine ⟨fun r hr hret => ?_, fun pre heap' post hsplit r hr hret => ?_⟩
    · obtain ⟨f', fs', hdrop, hframed⟩ := h [] heap heaps rfl r hr hret
      cases hdrop
      exact hframed
    · exact h (heap :: pre) heap' post (by rw [hsplit]; rfl) r hr hret
  · rintro ⟨hfirst, hrest⟩ pre heap' post hsplit r hr hret
    cases pre with
    | nil =>
      cases hsplit
      exact ⟨f, fs, rfl, hfirst r hr hret⟩
    | cons heap'' pre =>
      rw [List.cons_append, List.cons.injEq] at hsplit
      obtain ⟨rfl, hheaps⟩ := hsplit
      exact hrest pre heap' post hheaps r hr hret

/-- A session on which no call is made. -/
def Quiet (fd : ℤ) (l : Link) : Prop := ∀ heap, l.call fd heap = none

theorem quiet_closed (h : l.isOpen = false) : Quiet fd l := by
  intro heap
  unfold Link.call
  rw [h]

theorem quiet_empty (h : l.conn.input = []) : Quiet fd l := by
  intro heap
  unfold Link.call
  rw [h]
  split
  · contradiction
  · rfl

theorem quiet_run (h : Quiet fd l) (heaps : List Heap) : (linkMachine fd).run l heaps = l := by
  induction heaps with
  | nil => rfl
  | cons heap heaps ih =>
    have hstep : l.step fd heap = l := by
      unfold Link.step; rw [h heap]
    rw [Machine.run_cons]
    show (linkMachine fd).run (l.step fd heap) heaps = l
    rw [hstep, ih]

theorem keeps_quiet (h : Quiet fd l) : KeepsFraming fd l frames heaps := by
  intro pre heap post _ r hr
  rw [quiet_run h] at hr
  have hnone : (none : Option (WsOutcome Conn)) = some r := (h heap).symm.trans hr
  cases hnone

/-- After a call that failed the session is closed. -/
theorem keeps_failed {r : WsOutcome Conn} (hr : l.call fd heap = some r) (hret : r.ret ≠ espOk) :
    KeepsFraming fd l (f :: fs) (heap :: heaps) := by
  refine keeps_cons.2 ⟨fun r' hr' hret' => ?_, keeps_quiet (quiet_closed ?_)⟩
  · rw [hr, Option.some.injEq] at hr'
    exact absurd (hr' ▸ hret') hret
  · unfold Link.step
    rw [hr]
    exact decide_eq_false hret

/-- The taken frame is whole unless there was no room for the terminator. -/
theorem framed_iff (fd : ℤ) (h : l.Queues (f :: fs)) (hm : heap.malloc f.blockSize = some block) :
    Framed l (frameTaken fd l f fs block) f fs ↔ f.payload.length + 1 < 2 ^ 32 := by
  have hsize := f.size
  have hblock : block.length = (f.payload.length + 1) % 2 ^ 32 :=
    (heap.size _ _ hm).trans f.toNat_blockSize
  constructor
  · intro hframed
    have hroom : f.payload.length < block.length := hframed.room
    omega
  · intro hlt
    have hfit : block.length = f.payload.length + 1 := by omega
    have hroom : f.payload.length < block.length := by omega
    have hmsg := congrArg some (CString.set_store hfit 0)
    exact ⟨h.input, rfl, hmsg, hroom⟩

/-- A frame that is not empty, and the rest of them. -/
theorem keeps_frame (h : l.Queues (f :: fs)) (hne : f.payload.length ≠ 0)
    (hm : heap.malloc f.blockSize = some block) :
    KeepsFraming fd l (f :: fs) (heap :: heaps) ↔
      f.payload.length + 1 < 2 ^ 32 ∧ KeepsFraming fd (l.step fd heap) fs heaps := by
  have hcall := call_frame fd h hne hm
  rw [keeps_cons, hcall, ← framed_iff fd h hm]
  refine and_congr_left fun _ => ⟨fun hfirst => hfirst _ rfl rfl, ?_⟩
  rintro hframed r hr -
  cases hr
  exact hframed

/-- The session after a frame that is not empty. -/
theorem queues_next (h : l.Queues (f :: fs)) (hne : f.payload.length ≠ 0)
    (hm : heap.malloc f.blockSize = some block) : (l.step fd heap).Queues fs := by
  have hopen : decide (espOk = espOk) = true := decide_eq_true rfl
  unfold Link.step
  rw [call_frame fd h hne hm]
  exact ⟨hopen, rfl⟩

/-- **An empty frame with another behind it** breaks the framing. -/
theorem not_keeps_empty {f' : TextFrame} (h : l.Queues (f :: f' :: fs))
    (h0 : f.payload.length = 0) (hm : heap.malloc f.blockSize = some block) :
    ¬ KeepsFraming fd l (f :: f' :: fs) (heap :: heaps) := by
  intro hkeep
  obtain ⟨r, hr, hret, hin⟩ := call_empty fd h h0 hm
  have hconsumed := ((keeps_cons.1 hkeep).1 r hr hret).consumed
  have hlen := congrArg List.length (hin.symm.trans hconsumed)
  -- the next frame is shorter than it was
  rw [List.length_drop, stream_cons, List.length_cons] at hlen
  omega

/-- **The calls on a session with frames queued.** -/
theorem keeps_iff (h : l.Queues frames) (heaps : List Heap) :
    KeepsFraming fd l frames heaps ↔ Receivable frames heaps := by
  induction frames generalizing l heaps with
  | nil =>
    apply iff_of_true (keeps_quiet (quiet_empty h.input))
    cases heaps <;> trivial
  | cons f fs ih =>
    cases heaps with
    | nil =>
      refine iff_of_true ?_ trivial
      intro pre heap post hsplit
      cases pre <;> cases hsplit
    | cons heap heaps =>
      unfold Receivable
      cases hm : heap.malloc f.blockSize with
      | none =>
        obtain ⟨r, hr, hret⟩ := call_no_memory fd h hm
        apply iff_of_true (keeps_failed hr hret)
        intro hsome
        cases hsome
      | some block =>
        rw [forall_prop_of_true (Option.isSome_some (a := block))]
        by_cases h0 : f.payload.length = 0
        · cases fs with
          | nil =>
            -- the second header is not there: the session closes
            obtain ⟨r, hr, hret⟩ := call_empty_last fd h h0 hm
            refine iff_of_true (keeps_failed hr hret) ⟨Or.inr rfl, by omega, ?_⟩
            cases heaps <;> trivial
          | cons f' fs =>
            apply iff_of_false (not_keeps_empty h h0 hm)
            rintro ⟨hne | hnil, -⟩
            · exact hne h0
            · cases hnil
        · rw [keeps_frame h h0 hm, ih (queues_next h h0 hm)]
          exact ⟨fun ⟨hlt, hrest⟩ => ⟨Or.inl h0, hlt, hrest⟩, fun ⟨_, hlt, hrest⟩ => ⟨hlt, hrest⟩⟩

/-- **When the framing is kept**, for every sequence of frames and every result of `malloc`. -/
theorem framing_kept_iff (fd : ℤ) (wsFds : WsFds) (frames : List TextFrame) (heaps : List Heap) :
    KeepsFraming fd (Link.queued frames wsFds) frames heaps ↔ Receivable frames heaps :=
  keeps_iff ⟨rfl, rfl⟩ heaps

/-- A `malloc` that gives every block. -/
def grants : Heap where
  malloc n := some (List.replicate n.toNat 0)
  size n block h := by
    rw [Option.some.injEq] at h
    rw [← h, List.length_replicate]

/-- A short frame. -/
def shortText (s : String) (h : (CString.ascii s).length < 126) : TextFrame where
  form := .short
  key := [1, 2, 3, 4]
  payload := CString.ascii s
  key_length := rfl
  fits := h
  size := Nat.lt_trans h (by decide)

/-- **An empty frame** before another one. -/
theorem framing_lost : ¬ ∀ (fd : ℤ) (wsFds : WsFds) (frames : List TextFrame) (heaps : List Heap),
    KeepsFraming fd (Link.queued frames wsFds) frames heaps := by
  intro h
  have hkeep := h 54 (fun _ => 0) [shortText "" (by decide), shortText "hi" (by decide)]
    [grants, grants]
  have hrec := (keeps_iff ⟨rfl, rfl⟩ _).1 hkeep
  rcases (hrec rfl).1 with hne | hnil
  · exact hne rfl
  · cases hnil

end Boatdash
