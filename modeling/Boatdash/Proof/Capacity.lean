import Mathlib.Data.Finset.Image
import Mathlib.Data.Finset.Range
import Boatdash.Proof.Sessions

/-!
# A registration is never dropped for want of a slot

No code checks for a full table. With at most `MAX_CLIENTS` sessions open at a time and
each new one on the lowest free number from `base` on, every number ever used is among
`MAX_CLIENTS` ones (`Packed`), and so is every entry of the table, live or stale. The
entries are distinct, so a full table holds all of these numbers, the sender's among them
(`stored_of_packed`).
-/

namespace Boatdash

open Slots Finset

/-- The `n` numbers from `base` on. -/
def fromBase (base : ℤ) (n : ℕ) : Finset ℤ := (range n).image fun i : ℕ => base + i

/-- The numbers sessions can get. -/
def sockets (base : ℤ) : Finset ℤ := fromBase base maxClients

/-- At most `MAX_CLIENTS` sessions at a time, each on the lowest number from `base` on that
no open session uses; data frames come from open sessions. -/
def World.okLowest (base : ℤ) (w : World) : NetEvent → Prop
  | .opened fd => base ≤ fd ∧ fd ∉ w.live ∧ fromBase base (fd - base).toNat ⊆ w.live ∧
      w.live.card < maxClients
  | .handshake fd _ => fd ∈ w.live
  | .frame fd _ => fd ∈ w.live
  | .closed fd => fd ∈ w.live
  | .broadcast _ _ _ => True

instance (base : ℤ) (w : World) : (e : NetEvent) → Decidable (w.okLowest base e)
  | .opened fd =>
    inferInstanceAs (Decidable (base ≤ fd ∧ fd ∉ w.live ∧
      fromBase base (fd - base).toNat ⊆ w.live ∧ w.live.card < maxClients))
  | .handshake fd _ => inferInstanceAs (Decidable (fd ∈ w.live))
  | .frame fd _ => inferInstanceAs (Decidable (fd ∈ w.live))
  | .closed fd => inferInstanceAs (Decidable (fd ∈ w.live))
  | .broadcast _ _ _ => isTrue trivial

/-- The open sessions and the table's entries are among the numbers sessions can get. -/
structure Packed (base : ℤ) (w : World) : Prop extends Served w where
  live : w.live ⊆ sockets base
  table : members 0 w.ui.wsFds ⊆ sockets base

variable {base : ℤ} {w : World} {fd : ℤ} {env : WsEnv Unit}

theorem mem_fromBase {n : ℕ} : fd ∈ fromBase base n ↔ base ≤ fd ∧ fd < base + n := by
  unfold fromBase
  rw [mem_image]
  constructor
  · rintro ⟨i, hi, rfl⟩
    have hlt := mem_range.1 hi
    omega
  · intro h
    exact ⟨(fd - base).toNat, mem_range.2 (by omega), by omega⟩

theorem card_fromBase (base : ℤ) (n : ℕ) : (fromBase base n).card = n := by
  have hinj : Function.Injective fun i : ℕ => base + (i : ℤ) := by
    intro i j h
    have heq : base + (i : ℤ) = base + j := h
    omega
  unfold fromBase
  rw [card_image_of_injective _ hinj, card_range]

/-- **The lowest free number is one of `MAX_CLIENTS`.** -/
theorem lowest_mem {L : Finset ℤ} (hb : base ≤ fd) (hlow : fromBase base (fd - base).toNat ⊆ L)
    (hcard : L.card < maxClients) : fd ∈ sockets base := by
  refine mem_fromBase.2 ⟨hb, ?_⟩
  -- the numbers below it are all in use
  have hbelow : (fd - base).toNat ≤ L.card := by
    calc (fd - base).toNat = (fromBase base (fd - base).toNat).card := (card_fromBase base _).symm
      _ ≤ L.card := card_le_card hlow
  omega

theorem packed_close (h : Packed base w) (fd : ℤ) : Packed base (w.close fd) := by
  have hs := served_close h.toServed fd
  have hlive : w.live.erase fd ⊆ sockets base := (erase_subset fd w.live).trans h.live
  rw [close_eq h.toServed] at hs ⊢
  exact ⟨hs, hlive, h.table⟩

/-- A stored socket that is among the numbers keeps the table among them. -/
theorem packed_store (h : Packed base w) (hfd : fd ∈ sockets base) :
    Packed base { w with ui := { w.ui with wsFds := wsStore w.ui.wsFds fd } } := by
  have hdistinct : Distinct 0 (wsStore w.ui.wsFds fd) := distinct_wsStore h.distinct
  have htable : members 0 (wsStore w.ui.wsFds fd) ⊆ sockets base :=
    wsStore_sub.trans (insert_subset hfd h.table)
  exact ⟨⟨h.running, h.noClose, hdistinct⟩, h.live, htable⟩

/-- **One event.** -/
theorem packed_step (h : Packed base w) {e : NetEvent} (he : w.okLowest base e) :
    Packed base (w.step e) := by
  have hs := served_step h.toServed e
  cases e with
  | opened fd =>
    obtain ⟨hb, -, hlow, hcard⟩ := he
    have hfd : fd ∈ sockets base := lowest_mem hb hlow hcard
    exact ⟨hs, insert_subset hfd h.live, h.table⟩
  | handshake fd env =>
    rw [step_handshake] at hs ⊢; exact ⟨hs, h.live, h.table⟩
  | frame fd env =>
    have hfd : fd ∈ sockets base := h.live he
    rcases step_frame w fd env with ⟨-, -, hst⟩ | ⟨-, -, hst⟩
    · rw [hst]; exact packed_store h hfd
    · rw [hst]; exact packed_close h fd
  | closed fd => exact packed_close h fd
  | broadcast json len send =>
    have htable : members 0 (sweep send w.ui.wsFds) ⊆ sockets base :=
      (members_sub (sweep_slot send w.ui.wsFds)).trans h.table
    rw [step_broadcast h.toServed] at hs ⊢
    exact ⟨hs, h.live, htable⟩

/-- **The pigeonhole.** The socket of an open session finds itself or a free slot. -/
theorem stored_of_packed (h : Packed base w) (hbase : 0 < base) (hfd : fd ∈ w.live) :
    fd ∈ members 0 (wsStore w.ui.wsFds fd) := by
  have hmem := h.live hfd
  have hfd0 : fd ≠ 0 := by have := (mem_fromBase.1 hmem).1; omega
  rw [mem_wsStore hfd0]
  by_cases hfree : ∃ i, w.ui.wsFds i = 0
  · exact Or.inr hfree
  · -- a full table holds every number a session can get, live or stale
    have hcard : (sockets base).card ≤ maxClients := (card_fromBase base maxClients).le
    have hall : members 0 w.ui.wsFds = sockets base := eq_of_full h.distinct hfree h.table hcard
    left; rw [hall]; exact hmem

/-- A data frame that returns `ESP_OK` leaves its sender's socket in `ws_fds`. -/
def World.Keeps (w : World) (e : NetEvent) : Prop :=
  ∀ fd env, e = .frame fd env → w.out e = .returned espOk → fd ∈ members 0 (w.step e).ui.wsFds

theorem keeps_of_packed (h : Packed base w) (hbase : 0 < base) {e : NetEvent}
    (he : w.okLowest base e) : w.Keeps e := by
  rintro fd env rfl hout
  rcases step_frame w fd env with ⟨-, -, hs⟩ | ⟨-, hne, -⟩
  · rw [hs]; exact stored_of_packed h hbase he
  · exact absurd hout hne

theorem packed_start (base : ℤ) : Packed base .start := by
  refine ⟨served_start, empty_subset _, ?_⟩
  rw [show World.start.ui.wsFds = fun _ => 0 from rfl, members_empty]
  exact empty_subset _

/-- **Registration is never silently dropped**, over any run from the start in which
sessions get the lowest free number. -/
theorem registration_kept (base : ℤ) (hbase : 0 < base) (es : List NetEvent)
    (h : netMachine.Along (World.okLowest base) .start es) :
    netMachine.Along World.Keeps .start es :=
  Machine.Along.mono_inv (I := Packed base) (fun _ _ hI hok => packed_step hI hok)
    (fun _ _ hI hok => keeps_of_packed hI hbase hok) (packed_start base) h

/-- A client registers and closes without a broadcast; the next one takes its number and a
second one the number after it. -/
theorem registration_kept_reuse :
    netMachine.Along World.Keeps .start
      [.opened 54, .frame 54 helloEnv, .closed 54, .opened 54, .opened 55, .frame 55 helloEnv] :=
  registration_kept 54 (by decide) _ (by decide)

end Boatdash
