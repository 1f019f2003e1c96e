import Mathlib.Data.List.Basic
import Boatdash.Spec.Relays

/-!
# What `relays_post_handler` reads and answers

`loop_run` gives the loop for any number of bytes to come: what it asks for, what it has
received when it returns, and how many of its calls did not time out.

* `relays_reports_iff`: **the body is acknowledged exactly when all of it was received, for a
  `content_len` below `2 ^ 31` and no other**; from there on `remaining` is negative, and the
  handler acknowledges a body it has not read.
* `relays_returns`: **at most `content_len` calls do not time out, and the handler returns
  exactly if the timeouts end**: it retries each of them, without a limit.
-/

namespace Boatdash

variable {recv : ReqRecv} {contentLen : UInt32}

/-- The bytes received. -/
def received (calls : List (UInt32 × ℤ)) : ℕ := (calls.map fun c => c.2.toNat).sum

/-- The calls that timed out. -/
def timeouts (calls : List (UInt32 × ℤ)) : ℕ := calls.countP (·.2 = httpdSockErrTimeout)

/-- The calls that did not time out. -/
def answered (calls : List (UInt32 × ℤ)) : ℕ := calls.countP (·.2 ≠ httpdSockErrTimeout)

theorem length_calls (calls : List (UInt32 × ℤ)) :
    calls.length = timeouts calls + answered calls := by
  unfold timeouts answered
  simpa using List.length_eq_countP_add_countP
    (fun c : UInt32 × ℤ => decide (c.2 = httpdSockErrTimeout)) (l := calls)

@[simp] theorem received_cons (c : UInt32 × ℤ) (calls : List (UInt32 × ℤ)) :
    received (c :: calls) = c.2.toNat + received calls := by
  simp [received]

/-! ## The loop -/

/-- **What `MIN` asks for**: at least one byte, and no more than the buffer or the body takes. -/
theorem minSize_le {n : ℕ} (h0 : 0 < n) (hn : n < 2 ^ 31) :
    (minSize n 128).toNat = min 128 n := by
  have hnat : (UInt32.ofInt n).toNat = n := by
    have hmod : ((n : ℤ) % 2 ^ 32).toNat = n := by omega
    unfold UInt32.ofInt
    rw [hmod, UInt32.toNat_ofNat']
    omega
  have hbuf : (128 : UInt32).toNat = 128 := rfl
  unfold minSize
  by_cases h : UInt32.ofInt n < 128
  · have hlt : n < 128 := by rw [UInt32.lt_iff_toNat_lt, hnat, hbuf] at h; exact h
    rw [if_pos h, hnat]; omega
  · have hge : 128 ≤ n := by rw [UInt32.lt_iff_toNat_lt, hnat, hbuf] at h; omega
    rw [if_neg h, hbuf]; omega

/-- A run of the loop for `n` bytes to come, with at most `fuel` calls. -/
structure LoopRun (n fuel : ℕ) (r : RelayRun) : Prop where
  requests : ∀ pre want ret post, r.calls = pre ++ (want, ret) :: post →
    1 ≤ want.toNat ∧ want.toNat ≤ min 128 (n - received pre)
  reply : (r.reply = none ∧ r.calls.length = fuel ∧ received r.calls < n ∧
      answered r.calls ≤ received r.calls) ∨
    (r.reply = some relayProcessed ∧ received r.calls = n ∧
      answered r.calls ≤ received r.calls) ∨
    (r.reply = some relayFailed ∧ received r.calls < n ∧
      answered r.calls ≤ received r.calls + 1)

/-- A call that does not time out counts against the bytes it received. -/
theorem answered_cons (want : UInt32) {ret : ℤ} (h : ret = httpdSockErrTimeout ∨ 0 < ret)
    (calls : List (UInt32 × ℤ)) :
    answered ((want, ret) :: calls) ≤ ret.toNat + answered calls := by
  unfold answered
  rw [List.countP_cons]
  rcases h with rfl | h
  · simp
  · split <;> omega

/-- **One call more before a run of the loop**, a timeout or some bytes. -/
theorem after_run {n n' fuel : ℕ} {r : RelayRun} {want : UInt32} {ret : ℤ}
    (h : LoopRun n' fuel r) (hwant : 1 ≤ want.toNat ∧ want.toNat ≤ min 128 n)
    (hn : ret.toNat + n' = n) (hret : ret = httpdSockErrTimeout ∨ 0 < ret) :
    LoopRun n (fuel + 1) (r.after (want, ret)) := by
  have hans := answered_cons want hret r.calls
  have hcalls : (r.after (want, ret)).calls = (want, ret) :: r.calls := rfl
  have hreply : (r.after (want, ret)).reply = r.reply := rfl
  refine ⟨?_, ?_⟩
  · intro pre want' ret' post hsplit
    rw [hcalls] at hsplit
    cases pre with
    | nil => cases hsplit; exact hwant
    | cons c pre =>
      rw [List.cons_append, List.cons.injEq] at hsplit
      obtain ⟨rfl, hrest⟩ := hsplit
      have hreq := h.requests pre want' ret' post hrest
      rw [received_cons]
      omega
  · rw [hcalls, hreply, received_cons, List.length_cons]
    rcases h.reply with ⟨hr, hlen, hlt, ha⟩ | ⟨hr, heq, ha⟩ | ⟨hr, hlt, ha⟩
    · left; exact ⟨hr, by omega, by omega, by omega⟩
    · right; left; exact ⟨hr, by omega, by omega⟩
    · right; right; exact ⟨hr, by omega, by omega⟩

/-- Nothing to come: the body is acknowledged. -/
theorem run_done (fuel : ℕ) : LoopRun 0 fuel ⟨[], some relayProcessed⟩ := by
  refine ⟨?_, Or.inr (Or.inl ⟨rfl, rfl, le_rfl⟩)⟩
  intro pre want ret post hsplit
  cases pre <;> cases hsplit

/-- Something to come, and no call left. -/
theorem run_waits {n : ℕ} (h0 : 0 < n) : LoopRun n 0 ⟨[], none⟩ := by
  refine ⟨?_, Or.inl ⟨rfl, rfl, h0, le_rfl⟩⟩
  intro pre want ret post hsplit
  cases pre <;> cases hsplit

/-- A call that found the connection closed, or failed. -/
theorem run_failed {n : ℕ} {want : UInt32} {ret : ℤ} (fuel : ℕ) (h0 : 0 < n)
    (hwant : 1 ≤ want.toNat ∧ want.toNat ≤ min 128 n) (hret : ret ≤ 0) :
    LoopRun n fuel ⟨[(want, ret)], some relayFailed⟩ := by
  refine ⟨?_, Or.inr (Or.inr ⟨rfl, ?_, ?_⟩)⟩
  · intro pre want' ret' post hsplit
    cases pre with
    | nil => cases hsplit; exact hwant
    | cons c pre => cases pre <;> cases hsplit
  · rw [received_cons]
    show ret.toNat + 0 < n
    omega
  · exact List.countP_le_length.trans (Nat.le_add_left ..)

/-- **The loop.** -/
theorem loop_run (recv : ReqRecv) (fuel i : ℕ) {n : ℕ} (hn : n < 2 ^ 31) :
    LoopRun n fuel (relaysLoop recv fuel i n) := by
  induction fuel generalizing i n with
  | zero =>
    unfold relaysLoop
    by_cases h0 : 0 < n
    · have hpos : (0 : ℤ) < n := by omega
      rw [if_pos hpos]
      exact run_waits h0
    · have hzero : n = 0 := by omega
      subst hzero
      exact run_done 0
  | succ fuel ih =>
    unfold relaysLoop
    by_cases h0 : 0 < n
    · have hpos : (0 : ℤ) < n := by omega
      rw [if_pos hpos]
      simp only
      have hsize := minSize_le h0 hn
      have hwant : 1 ≤ (minSize n 128).toNat ∧ (minSize n 128).toNat ≤ min 128 n := by omega
      have hle := recv.le i (minSize n 128)
      set want := minSize n 128 with hwantdef
      set ret := recv.result i want with hretdef
      by_cases hstop : ret ≤ 0
      · rw [if_pos hstop]
        by_cases htime : ret = httpdSockErrTimeout
        · -- a timeout: as many bytes to come as before
          have hzero : ret.toNat = 0 := by rw [htime]; rfl
          rw [if_pos htime]
          exact after_run (ih (i + 1) hn) hwant (by omega) (Or.inl htime)
        · rw [if_neg htime]
          exact run_failed (fuel + 1) h0 hwant hstop
      · -- some bytes
        have hrest : ((n : ℤ) - ret) = ((n - ret.toNat : ℕ) : ℤ) := by omega
        rw [if_neg hstop, hrest]
        exact after_run (ih (i + 1) (by omega)) hwant (by omega) (Or.inr (by omega))
    · have hzero : n = 0 := by omega
      subst hzero
      exact run_done (fuel + 1)

/-- The loop makes at most the calls it may. -/
theorem calls_le (recv : ReqRecv) (fuel i : ℕ) (remaining : ℤ) :
    (relaysLoop recv fuel i remaining).calls.length ≤ fuel := by
  induction fuel generalizing i remaining with
  | zero => exact le_rfl
  | succ fuel ih =>
    have hafter : ∀ call j rest,
        ((relaysLoop recv fuel j rest).after call).calls.length ≤ fuel + 1 :=
      fun call j rest => Nat.succ_le_succ (ih j rest)
    unfold relaysLoop
    simp only
    split
    · split
      · split
        · exact hafter _ _ _
        · exact Nat.succ_le_succ (Nat.zero_le fuel)
      · exact hafter _ _ _
    · exact Nat.zero_le _

/-- **A loop that has returned** makes no further call. -/
theorem loop_stable (recv : ReqRecv) {fuel fuel' : ℕ} (hle : fuel ≤ fuel') (i : ℕ)
    (remaining : ℤ) (h : (relaysLoop recv fuel i remaining).reply.isSome) :
    relaysLoop recv fuel' i remaining = relaysLoop recv fuel i remaining := by
  induction fuel generalizing fuel' i remaining with
  | zero =>
    by_cases hpos : 0 < remaining
    · simp [relaysLoop, hpos] at h
    · cases fuel' <;> simp [relaysLoop, hpos]
  | succ fuel ih =>
    obtain ⟨fuel', rfl⟩ : ∃ k, fuel' = k + 1 := ⟨fuel' - 1, by omega⟩
    have hle' : fuel ≤ fuel' := by omega
    have hafter : ∀ call j rest, ((relaysLoop recv fuel j rest).after call).reply.isSome →
        (relaysLoop recv fuel' j rest).after call = (relaysLoop recv fuel j rest).after call :=
      fun call j rest hr => congrArg _ (ih hle' j rest hr)
    unfold relaysLoop at h ⊢
    simp only at h ⊢
    split at h
    · rename_i hpos
      rw [if_pos hpos, if_pos hpos]
      split at h
      · rename_i hstop
        rw [if_pos hstop, if_pos hstop]
        split at h
        · rename_i htime
          rw [if_pos htime, if_pos htime]
          exact hafter _ _ _ h
        · rename_i htime
          rw [if_neg htime, if_neg htime]
      · rename_i hstop
        rw [if_neg hstop, if_neg hstop]
        exact hafter _ _ _ h
    · rename_i hpos
      rw [if_neg hpos, if_neg hpos]

/-! ## The handler -/

/-- Below `2 ^ 31` the bytes to come are those of the body. -/
theorem handler_run (recv : ReqRecv) (h : contentLen.toNat < 2 ^ 31) (fuel : ℕ) :
    LoopRun contentLen.toNat fuel (relaysPostHandler recv contentLen fuel) := by
  have hsize : sizeToInt contentLen = (contentLen.toNat : ℤ) := if_pos h
  unfold relaysPostHandler
  rw [hsize]
  exact loop_run recv fuel 0 h

/-- From `2 ^ 31` on there are none: the handler returns at once. -/
theorem handler_skips (recv : ReqRecv) (h : ¬ contentLen.toNat < 2 ^ 31) (fuel : ℕ) :
    relaysPostHandler recv contentLen fuel = ⟨[], some relayProcessed⟩ := by
  have hsize : sizeToInt contentLen = (contentLen.toNat : ℤ) - 2 ^ 32 := if_neg h
  have hmax : contentLen.toNat < 2 ^ 32 := contentLen.toNat_lt
  have hneg : ¬ 0 < sizeToInt contentLen := by omega
  unfold relaysPostHandler
  cases fuel with
  | zero => unfold relaysLoop; rw [if_neg hneg]
  | succ fuel => unfold relaysLoop; rw [if_neg hneg]

/-- **The handler reports what it has read**: each call asks for at least one byte and for no
more than the buffer and the rest of the body take, and the answer says whether the whole body
was received. -/
structure Reports (contentLen : UInt32) (run : RelayRun) : Prop where
  requests : ∀ pre want ret post, run.calls = pre ++ (want, ret) :: post →
    1 ≤ want.toNat ∧ want.toNat ≤ min 128 (contentLen.toNat - received pre)
  success : run.reply = some relayProcessed ↔ received run.calls = contentLen.toNat
  failure : received run.calls ≠ contentLen.toNat → run.reply = some relayFailed

/-- **When a run that ends reports what it has read.** -/
theorem relays_reports_iff (recv : ReqRecv) (contentLen : UInt32) (fuel : ℕ)
    (hends : (relaysPostHandler recv contentLen fuel).reply.isSome) :
    Reports contentLen (relaysPostHandler recv contentLen fuel) ↔ contentLen.toNat < 2 ^ 31 := by
  by_cases hlen : contentLen.toNat < 2 ^ 31
  · refine iff_of_true ?_ hlen
    have hrun := handler_run recv hlen fuel
    rcases hrun.reply with ⟨hr, -⟩ | ⟨hr, heq, -⟩ | ⟨hr, hlt, -⟩
    · rw [hr] at hends; cases hends
    · exact ⟨hrun.requests, iff_of_true hr heq, fun hne => absurd heq hne⟩
    · have hne : received (relaysPostHandler recv contentLen fuel).calls ≠ contentLen.toNat := by
        omega
      have hno : (relaysPostHandler recv contentLen fuel).reply ≠ some relayProcessed := by
        rw [hr]; decide
      exact ⟨hrun.requests, iff_of_false hno hne, fun _ => hr⟩
  · refine iff_of_false ?_ hlen
    rw [handler_skips recv hlen fuel]
    intro hrep
    -- nothing was received, and the body is not empty
    have hnone : received [] = contentLen.toNat := hrep.success.1 rfl
    have hzero : received [] = 0 := rfl
    omega

theorem timeout_le (n : UInt32) : httpdSockErrTimeout ≤ n.toNat := by
  unfold httpdSockErrTimeout; omega

/-- A sender that fills each request, after one timeout. -/
def fills : ReqRecv where
  result i n := if i = 0 then httpdSockErrTimeout else n.toNat
  le i n := by
    split
    · exact timeout_le n
    · exact Int.le_refl _

/-- A body of 200 bytes, in three calls. -/
theorem relays_reports_fills : Reports 200 (relaysPostHandler fills 200 3) :=
  (relays_reports_iff fills 200 3 (by decide)).2 (by decide)

/-- **A body of `2 ^ 31` bytes** is acknowledged unread. -/
theorem unread_acknowledged : ¬ ∀ (recv : ReqRecv) (contentLen : UInt32) (fuel : ℕ),
    (relaysPostHandler recv contentLen fuel).reply.isSome →
      Reports contentLen (relaysPostHandler recv contentLen fuel) := by
  intro h
  have hrep := h fills (2 ^ 31) 0 (by decide)
  exact absurd (hrep.success.1 (by decide)) (by decide)

/-! ## How long it waits -/

/-- **How the handler returns**: at most `content_len` calls do not time out, whatever the
stream; with `t` timeouts it returns within that many calls more; and it returns at all exactly
if the timeouts are limited. -/
structure Returns (recv : ReqRecv) (contentLen : UInt32) : Prop where
  answered : ∀ fuel, answered (relaysPostHandler recv contentLen fuel).calls ≤ contentLen.toNat
  within : ∀ t, (∀ fuel, timeouts (relaysPostHandler recv contentLen fuel).calls ≤ t) →
    (relaysPostHandler recv contentLen (contentLen.toNat + t)).reply.isSome
  exact : (∃ fuel, (relaysPostHandler recv contentLen fuel).reply.isSome) ↔
    ∃ t, ∀ fuel, timeouts (relaysPostHandler recv contentLen fuel).calls ≤ t

/-- **The calls of the handler.** -/
theorem relays_returns (recv : ReqRecv) (contentLen : UInt32) : Returns recv contentLen := by
  have hwithin : ∀ t, (∀ fuel, timeouts (relaysPostHandler recv contentLen fuel).calls ≤ t) →
      (relaysPostHandler recv contentLen (contentLen.toNat + t)).reply.isSome := by
    intro t ht
    by_cases hlen : contentLen.toNat < 2 ^ 31
    · have hrun := handler_run recv hlen (contentLen.toNat + t)
      rcases hrun.reply with ⟨-, hall, hlt, ha⟩ | ⟨hr, -⟩ | ⟨hr, -⟩
      · -- every call timed out or brought a byte
        have htime := ht (contentLen.toNat + t)
        have hcount :=
          length_calls (relaysPostHandler recv contentLen (contentLen.toNat + t)).calls
        omega
      · rw [hr]; rfl
      · rw [hr]; rfl
    · rw [handler_skips recv hlen]; rfl
  refine ⟨?_, hwithin, ?_, fun ⟨t, ht⟩ => ⟨_, hwithin t ht⟩⟩
  · intro fuel
    by_cases hlen : contentLen.toNat < 2 ^ 31
    · rcases (handler_run recv hlen fuel).reply with ⟨-, -, hlt, ha⟩ | ⟨-, heq, ha⟩ | ⟨-, hlt, ha⟩ <;>
        omega
    · rw [handler_skips recv hlen]; exact Nat.zero_le _
  · rintro ⟨fuel, hret⟩
    refine ⟨fuel, fun fuel' => ?_⟩
    have hlen : (relaysPostHandler recv contentLen fuel').calls.length ≤ fuel := by
      rcases Nat.le_total fuel' fuel with hle | hle
      · exact (calls_le recv fuel' 0 _).trans hle
      · have hsame : relaysPostHandler recv contentLen fuel' =
            relaysPostHandler recv contentLen fuel := loop_stable recv hle 0 _ hret
        rw [hsame]; exact calls_le recv fuel 0 _
    have hcount := length_calls (relaysPostHandler recv contentLen fuel').calls
    omega

/-- A sender that stops sending. -/
def stalled : ReqRecv where
  result _ _ := httpdSockErrTimeout
  le _ n := timeout_le n

theorem stalled_loop (fuel i : ℕ) {remaining : ℤ} (h : 0 < remaining) :
    (relaysLoop stalled fuel i remaining).reply = none := by
  induction fuel generalizing i with
  | zero => unfold relaysLoop; rw [if_pos h]
  | succ fuel ih =>
    have hstop : httpdSockErrTimeout ≤ 0 := by decide
    unfold relaysLoop
    simp only [stalled, if_pos h, if_pos hstop, if_true]
    exact ih (i + 1)

/-- **A client that stalls holds the handler**, for more calls than any bound. -/
theorem stalled_holds : ¬ ∃ bound : UInt32 → ℕ, ∀ (recv : ReqRecv) (contentLen : UInt32),
    (relaysPostHandler recv contentLen (bound contentLen)).reply.isSome := by
  rintro ⟨bound, h⟩
  have hret := h stalled 1
  have hwaits : (relaysPostHandler stalled 1 (bound 1)).reply = none :=
    stalled_loop (bound 1) 0 (by decide)
  rw [hwaits] at hret
  cases hret

end Boatdash
