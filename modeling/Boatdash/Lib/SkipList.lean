import Mathlib.Data.List.Basic
import Mathlib.Tactic.Ring
import Boatdash.Lib.Ruler

/-!
# Backward skip lists of blocks

A sequence of blocks of `B` bytes that is only ever extended: block `i > 0` starts with pointers of
`w` bytes to the blocks `i - 1`, `i - 2`, `i - 4` and so on, as long as the power of two divides
`i`, and the rest of it holds data.

* `start_succ`: how many bytes of data stand before a block, in closed form.
* `index_spec`: the block of a byte by two divisions, **for every position that the pointers leave
  room for**.
* `cost_hop`: following the longest pointer that does not overshoot comes to any block before
  block `n` in at most `2 log n + 1` hops.
* `linked_snoc`: what the pointers of one more block have to be, and `chain_eq` how to find them.
-/

namespace SkipList

open Ruler

/-! ## Where the bytes are -/

/-- The bytes of block `i` taken by pointers. -/
def head (w i : ℕ) : ℕ := if i = 0 then 0 else w * (rank i + 1)

/-- The bytes of data in the blocks before `i`. -/
def start (B w : ℕ) : ℕ → ℕ
  | 0 => 0
  | i + 1 => start B w i + (B - head w i)

/-- The blocks before `m` have room for their pointers, and to spare. -/
def Fits (B w m : ℕ) : Prop := ∀ j < m, w * (ones j + 4) ≤ B

/-- The block of a byte. -/
def index (B w p : ℕ) : ℕ :=
  let b := B - 2 * w
  if p / b = 0 then 0 else (p - w * (ones (p / b - 1) + 2)) / b

/-- Where the byte `p` is in its block `i`. -/
def place (B w i p : ℕ) : ℕ := p - (B - 2 * w) * i - w * ones i

variable {B w m i j p : ℕ}

theorem Fits.mono {k : ℕ} (h : Fits B w m) (hk : k ≤ m) : Fits B w k :=
  fun j hj => h j (lt_of_lt_of_le hj hk)

/-- The pointers leave room. -/
theorem head_le (h : Fits B w m) (hi : i ≤ m) : head w i + 3 * w ≤ B ∨ i = 0 := by
  cases i with
  | zero => exact Or.inr rfl
  | succ i =>
    have hfit := h i hi
    have hrank := ones_succ i
    have hpos : 0 < ones (i + 1) := ones_pos (Nat.succ_ne_zero i)
    have hle : rank (i + 1) ≤ ones i := by omega
    have hmul := Nat.mul_le_mul_left w (show rank (i + 1) + 1 + 3 ≤ ones i + 4 by omega)
    unfold head
    rw [if_neg (Nat.succ_ne_zero i)]
    left
    calc w * (rank (i + 1) + 1) + 3 * w = w * (rank (i + 1) + 1 + 3) := by ring
      _ ≤ B := hmul.trans hfit

theorem two_le (h : Fits B w m) (hm : 0 < m) : 2 * w ≤ B := by
  have hfit := h 0 hm
  rw [ones_zero] at hfit
  omega

/-- **The data before a block**, in closed form. -/
theorem start_succ (h : Fits B w m) (hi : i < m) :
    start B w (i + 1) = (B - 2 * w) * (i + 1) + w * (ones i + 2) := by
  have htwo := two_le h (by omega)
  induction i with
  | zero =>
    show 0 + (B - 0) = _
    rw [ones_zero]
    omega
  | succ i ih =>
    have hprev := ih (by omega)
    have hhead := (head_le h (by omega : i + 1 ≤ m)).resolve_right (Nat.succ_ne_zero i)
    have hrank := ones_succ i
    have hval : head w (i + 1) = w * (rank (i + 1) + 1) := if_neg (Nat.succ_ne_zero i)
    show start B w (i + 1) + (B - head w (i + 1)) = _
    rw [hprev]
    obtain ⟨b, rfl⟩ : ∃ b, B = b + 2 * w := ⟨B - 2 * w, by omega⟩
    have hb : b + 2 * w - 2 * w = b := by omega
    have hbal : w * (ones (i + 1) + rank (i + 1)) = w * (ones i + 1) := by rw [hrank]
    rw [hb]
    rw [hval] at hhead ⊢
    have hsub : (b + 2 * w - w * (rank (i + 1) + 1)) + w * (rank (i + 1) + 1) = b + 2 * w := by omega
    have hexpand : w * (rank (i + 1) + 1) = w * rank (i + 1) + w := by ring
    have hones : w * (ones (i + 1) + 2) + w * rank (i + 1) = w * (ones i + 2) + w := by
      calc w * (ones (i + 1) + 2) + w * rank (i + 1) =
            w * (ones (i + 1) + rank (i + 1)) + 2 * w := by ring
        _ = w * (ones i + 2) + w := by rw [hbal]; ring
    have hnext : b * (i + 1 + 1) = b * (i + 1) + b := by ring
    omega

/-- Every block holds data. -/
theorem start_lt (h : Fits B w m) (hw : 0 < w) (hi : i < m) : start B w i < start B w (i + 1) := by
  have htwo := two_le h (by omega)
  rcases head_le h hi.le with hhead | rfl
  · show _ < start B w i + (B - head w i)
    omega
  · show 0 < 0 + (B - 0)
    omega

theorem start_mono (h : i ≤ j) : start B w i ≤ start B w j := by
  induction h with
  | refl => exact Nat.le_refl _
  | step _ ih => exact ih.trans (Nat.le_add_right ..)

/-- A byte is in one block only. -/
theorem block_unique (hi : start B w i ≤ p) (hi' : p < start B w (i + 1)) (hj : start B w j ≤ p)
    (hj' : p < start B w (j + 1)) : i = j := by
  rcases Nat.lt_trichotomy i j with hlt | rfl | hlt
  · have hle : start B w (i + 1) ≤ start B w j := start_mono hlt
    omega
  · rfl
  · have hle : start B w (j + 1) ≤ start B w i := start_mono hlt
    omega

/-- **The block of a byte**, by the first division and a correction of it. -/
theorem index_spec (hB : 2 * w < B) (h : Fits B w (p / (B - 2 * w) + 1)) :
    start B w (index B w p) ≤ p ∧ p < start B w (index B w p + 1) := by
  obtain ⟨b, rfl⟩ : ∃ b, B = b + 2 * w := ⟨B - 2 * w, by omega⟩
  have hb : b + 2 * w - 2 * w = b := by omega
  have hpos : 0 < b := by omega
  unfold index
  simp only [hb] at h ⊢
  have hdiv := Nat.div_add_mod p b
  have hmod := Nat.mod_lt p hpos
  rcases Nat.eq_zero_or_pos (p / b) with hq | hq
  · rw [if_pos hq]
    rw [hq, Nat.mul_zero] at hdiv
    refine ⟨Nat.zero_le p, ?_⟩
    show p < 0 + (b + 2 * w - 0)
    omega
  · rw [if_neg (by omega)]
    obtain ⟨q, hq'⟩ : ∃ q, p / b = q + 1 := ⟨p / b - 1, by omega⟩
    rw [hq'] at h hdiv ⊢
    simp only [Nat.add_sub_cancel]
    have hfit : w * (ones q + 2) ≤ b := by
      have hq2 := h q (by omega)
      have hexpand : w * (ones q + 4) = w * (ones q + 2) + 2 * w := by ring
      omega
    have hstart := start_succ h (by omega : q < q + 1 + 1)
    have hstart' := start_succ h (by omega : q + 1 < q + 1 + 1)
    rw [hb] at hstart hstart'
    have hnext : b * (q + 1) = b * q + b := by ring
    have hnext' : b * (q + 1 + 1) = b * (q + 1) + b := by ring
    have hcomm : ∀ k, k * b = b * k := fun k => Nat.mul_comm k b
    rcases Nat.lt_or_ge p (start (b + 2 * w) w (q + 1)) with hlt | hge
    · -- the first division is one too high
      have hval : (p - w * (ones q + 2)) / b = q :=
        Nat.div_eq_of_lt_le (by rw [hcomm]; omega) (by rw [hcomm]; omega)
      rw [hval]
      refine ⟨?_, hlt⟩
      cases q with
      | zero => exact Nat.zero_le p
      | succ q =>
        have hbelow := start_succ h (by omega : q < q + 1 + 1 + 1)
        have hq2 := h q (by omega)
        have hexpand : w * (ones q + 4) = w * (ones q + 2) + 2 * w := by ring
        rw [hb] at hbelow
        omega
    · have hval : (p - w * (ones q + 2)) / b = q + 1 :=
        Nat.div_eq_of_lt_le (by rw [hcomm]; omega) (by rw [hcomm]; omega)
      rw [hval]
      exact ⟨hge, by omega⟩

/-- Where the byte is in its block: behind the pointers. -/
theorem place_eq (h : Fits B w (i + 1)) (hi : start B w i ≤ p) :
    place B w i p = head w i + (p - start B w i) := by
  cases i with
  | zero =>
    show p - (B - 2 * w) * 0 - w * 0 = 0 + (p - 0)
    omega
  | succ i =>
    have hstart := start_succ h (by omega : i < i + 1 + 1)
    have hbal : w * (ones (i + 1) + rank (i + 1)) = w * (ones i + 1) := by rw [ones_succ]
    have hval : head w (i + 1) = w * (rank (i + 1) + 1) := if_neg (Nat.succ_ne_zero i)
    have hleft : w * (ones (i + 1) + rank (i + 1)) = w * ones (i + 1) + w * rank (i + 1) := by ring
    have hright : w * (ones i + 1) = w * ones i + w := by ring
    have hones : w * (ones i + 2) = w * ones i + 2 * w := by ring
    have hrank : w * (rank (i + 1) + 1) = w * rank (i + 1) + w := by ring
    unfold place
    rw [hval, hrank]
    omega

/-! ## Following pointers -/

/-- The pointer to follow from `n` towards `t`: the longest that does not overshoot. -/
def hop (t n : ℕ) : ℕ := min (n - t).log2 (rank n)

/-- A bound on the hops from `n` to `t`, for `n` with at most `b + 1` digits: the pointers get
longer until one would overshoot, and shorter from then on. -/
def cost (b t n : ℕ) : ℕ :=
  if n ≤ t then 0 else if (n - t).log2 ≤ rank n then (n - t).log2 + 1 else 2 * b + 1 - rank n

variable {b t n : ℕ}

/-- The hop does not overshoot. -/
theorem hop_le (h : t < n) : 2 ^ hop t n ≤ n - t := by
  have hle : 2 ^ (n - t).log2 ≤ n - t := Nat.log2_self_le (by omega)
  exact (Nat.pow_le_pow_right (by decide) (Nat.min_le_left ..)).trans hle

theorem log2_le_log2 (h : n ≤ m) : n.log2 ≤ m.log2 := by
  rcases Nat.eq_zero_or_pos n with rfl | hn
  · exact Nat.zero_le _
  · exact (Nat.le_log2 (by omega)).2 ((Nat.log2_self_le (by omega)).trans h)

theorem rank_le_log2 (h : n ≠ 0) : rank n ≤ n.log2 := (Nat.le_log2 h).2 (pow_rank_le h)

theorem cost_le (h : n.log2 ≤ b) : cost b t n ≤ 2 * b + 1 := by
  have hlog : (n - t).log2 ≤ n.log2 := log2_le_log2 (Nat.sub_le n t)
  unfold cost
  split
  · exact Nat.zero_le _
  · split <;> omega

/-- **Every hop** brings the bound down. -/
theorem cost_hop (h : t < n) (hb : n.log2 ≤ b) : cost b t (n - 2 ^ hop t n) + 1 ≤ cost b t n := by
  have hfit := hop_le h
  have hn : n ≠ 0 := by omega
  have hpos : 0 < 2 ^ hop t n := Nat.two_pow_pos _
  set n' := n - 2 ^ hop t n with hn'
  have hrest : n' - t = n - t - 2 ^ hop t n := by omega
  have hcost : cost b t n =
      if (n - t).log2 ≤ rank n then (n - t).log2 + 1 else 2 * b + 1 - rank n := if_neg (by omega)
  have hlogn : (n - t).log2 ≤ b := (log2_le_log2 (Nat.sub_le n t)).trans hb
  rcases Nat.lt_or_ge t n' with hlt | hge
  · have hcost' : cost b t n' =
        if (n' - t).log2 ≤ rank n' then (n' - t).log2 + 1 else 2 * b + 1 - rank n' :=
      if_neg (by omega)
    rw [hcost, hcost']
    by_cases hlong : (n - t).log2 ≤ rank n
    · -- the distance loses its top digit
      have hhop : hop t n = (n - t).log2 := Nat.min_eq_left hlong
      have hless : (n' - t).log2 < (n - t).log2 := by
        rw [Nat.log2_lt (by omega), hrest, hhop]
        have htop : n - t < 2 ^ ((n - t).log2 + 1) := Nat.lt_log2_self
        rw [pow_succ] at htop
        omega
      have hrank : (n - t).log2 ≤ rank n' := by
        rw [hn', hhop]
        rcases Nat.eq_or_lt_of_le hlong with heq | hlt'
        · rw [heq]
          exact (lt_rank_sub (by rw [← heq, ← hhop]; omega)).le
        · exact (rank_sub_of_lt hlt').ge
      rw [if_pos hlong, if_pos (by omega)]
      omega
    · -- the pointers get longer
      have hhop : hop t n = rank n := Nat.min_eq_right (by omega)
      have hrank : rank n < rank n' := by
        rw [hn', hhop]
        exact lt_rank_sub (by rw [← hhop]; omega)
      have hless : (n' - t).log2 ≤ (n - t).log2 := log2_le_log2 (by omega)
      have hmax : rank n' ≤ b := (rank_le_log2 (by omega)).trans ((log2_le_log2 (by omega)).trans hb)
      rw [if_neg hlong]
      split <;> omega
  · have hzero : cost b t n' = 0 := if_pos hge
    rw [hcost, hzero]
    have hmax : rank n ≤ b := (rank_le_log2 hn).trans hb
    split <;> omega

/-! ## Lists of blocks -/

variable {α : Type*} {ptr ptr' : α → ℕ → α} {l : List α} {x : α}

/-- The blocks of a list hold the pointers they should: `ptr b k` is that of `b` with number `k`. -/
def Linked (ptr : α → ℕ → α) (l : List α) : Prop :=
  ∀ i x k, l[i]? = some x → i ≠ 0 → k ≤ rank i → l[i - 2 ^ k]? = some (ptr x k)

theorem linked_nil : Linked ptr ([] : List α) := fun i x k h => by simp at h

theorem Linked.take (h : Linked ptr l) (m : ℕ) : Linked ptr (l.take m) := by
  intro i x k hx hi hk
  rw [List.getElem?_take] at hx ⊢
  by_cases him : i < m
  · rw [if_pos him] at hx
    rw [if_pos (lt_of_le_of_lt (Nat.sub_le ..) him)]
    exact h i x k hx hi hk
  · rw [if_neg him] at hx
    cases hx

/-- Pointers that the blocks of a list agree on. -/
theorem Linked.congr (h : Linked ptr l)
    (hsame : ∀ i x k, l[i]? = some x → i ≠ 0 → k ≤ rank i → ptr' x k = ptr x k) :
    Linked ptr' l := by
  intro i x k hx hi hk
  rw [hsame i x k hx hi hk]
  exact h i x k hx hi hk

/-- **One more block.** -/
theorem linked_snoc (h : Linked ptr l)
    (hx : l ≠ [] → ∀ k ≤ rank l.length, l[l.length - 2 ^ k]? = some (ptr x k)) :
    Linked ptr (l ++ [x]) := by
  intro i y k hy hi hk
  have hpow : 0 < 2 ^ k := Nat.two_pow_pos k
  rcases Nat.lt_trichotomy i l.length with hlt | rfl | hgt
  · rw [List.getElem?_append_left hlt] at hy
    rw [List.getElem?_append_left (by omega)]
    exact h i y k hy hi hk
  · rw [List.getElem?_append_right (Nat.le_refl _), Nat.sub_self] at hy
    have hyx : x = y := by simpa using hy
    subst hyx
    have hne : l ≠ [] := by rintro rfl; exact hi rfl
    rw [List.getElem?_append_left (by omega)]
    exact hx hne k hk
  · rw [List.getElem?_append_right (by omega), List.getElem?_eq_none (by simp; omega)] at hy
    cases hy

/-- From `x`, by pointer `0`, then `1` and so on. -/
def chain (ptr : α → ℕ → α) (x : α) : ℕ → α
  | 0 => x
  | k + 1 => ptr (chain ptr x k) k

/-- **Where the pointers of the next block are found.** -/
theorem chain_eq (h : Linked ptr l) (hx : l[n]? = some x) :
    ∀ k ≤ rank (n + 1), l[n + 1 - 2 ^ k]? = some (chain ptr x k) := by
  intro k
  induction k with
  | zero => exact fun _ => hx
  | succ k ih =>
    intro hk
    have hprev := ih (by omega)
    have hlt : 2 ^ k < n + 1 := by
      have hle : 2 ^ (k + 1) ≤ n + 1 :=
        (Nat.pow_le_pow_right (by decide) hk).trans (pow_rank_le (Nat.succ_ne_zero n))
      have hpos : 0 < 2 ^ k := Nat.two_pow_pos k
      rw [pow_succ] at hle
      omega
    have hrank : rank (n + 1 - 2 ^ k) = k := rank_sub_of_lt hk
    have hnext := h _ _ k hprev (by omega) (by rw [hrank])
    rw [show n + 1 - 2 ^ k - 2 ^ k = n + 1 - 2 ^ (k + 1) by rw [pow_succ]; omega] at hnext
    exact hnext

end SkipList
