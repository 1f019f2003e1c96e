import Mathlib.Algebra.Ring.Nat
import Mathlib.Algebra.Ring.Int.Defs
import Boatdash.Spec.Idf

/-!
# `relays_post_handler`

The handler reads the body of a POST to `/api/relays` in pieces and answers it. What
`httpd_req_recv` returns is an argument. The loop runs as long as the sender keeps it waiting,
so the handler is given the number of calls it may make, and may not have returned after them.
The bytes received go into a buffer nothing reads.
-/

namespace Boatdash

/-- `HTTPD_SOCK_ERR_TIMEOUT`. -/
def httpdSockErrTimeout : ℤ := -3

/-- `httpd_req_recv` over one request: what call number `i` returns when it asks for `n` bytes.
It is a count of at most `n`, `0` for a closed connection, or a negative code. -/
structure ReqRecv where
  result : ℕ → UInt32 → ℤ
  le : ∀ i n, result i n ≤ n.toNat

/-- What a `size_t` is as an `int`. -/
def sizeToInt (n : UInt32) : ℤ := if n.toNat < 2 ^ 31 then n.toNat else n.toNat - 2 ^ 32

/-- `MIN(a, b)` of an `int` and a `size_t`: both are compared, and taken, as a `size_t`. -/
def minSize (a : ℤ) (b : UInt32) : UInt32 := if UInt32.ofInt a < b then UInt32.ofInt a else b

/-- How the handler returned: its result, and the response it sent. -/
structure RelayReply where
  ret : EspErr
  sent : Option String
deriving DecidableEq

/-- The calls of `httpd_req_recv` (the bytes asked for, the result), first to last, and the
reply; `none` if the handler has not returned. -/
structure RelayRun where
  calls : List (UInt32 × ℤ)
  reply : Option RelayReply
deriving DecidableEq

/-- A run after one more call before it. -/
def RelayRun.after (call : UInt32 × ℤ) (r : RelayRun) : RelayRun :=
  { r with calls := call :: r.calls }

/-- The body was read. -/
def relayProcessed : RelayReply := ⟨espOk, some "Relay command processed"⟩

/-- The connection was closed, or failed. -/
def relayFailed : RelayReply := ⟨espFail, none⟩

/-- The loop with `remaining` bytes to come, from call number `i` on, for at most `fuel` calls. -/
def relaysLoop (recv : ReqRecv) : (fuel i : ℕ) → (remaining : ℤ) → RelayRun
  | 0, _, remaining => ⟨[], if 0 < remaining then none else some relayProcessed⟩
  | fuel + 1, i, remaining =>
    if 0 < remaining then
      let want := minSize remaining 128
      let ret := recv.result i want
      if ret ≤ 0 then
        -- a timeout is retried
        if ret = httpdSockErrTimeout then
          (relaysLoop recv fuel (i + 1) remaining).after (want, ret)
        else ⟨[(want, ret)], some relayFailed⟩
      else (relaysLoop recv fuel (i + 1) (remaining - ret)).after (want, ret)
    else ⟨[], some relayProcessed⟩

/-- `relays_post_handler`, for at most `fuel` calls of `httpd_req_recv`. -/
def relaysPostHandler (recv : ReqRecv) (contentLen : UInt32) (fuel : ℕ) : RelayRun :=
  relaysLoop recv fuel 0 (sizeToInt contentLen)

end Boatdash
