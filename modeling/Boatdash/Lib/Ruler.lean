import Mathlib.NumberTheory.Padics.PadicVal.Basic
import Mathlib.Algebra.Order.BigOperators.Group.List

/-!
# Trailing zeros and ones of a number

`rank n` is how often two divides `n`, the ruler sequence; `ones n` is the number of ones of `n` in
binary. Adding one to a number turns its trailing ones into zeros, so the two keep each other in
balance (`ones_succ`).

* `ones_succ`: `ones (n + 1) + rank (n + 1) = ones n + 1`.
* `ones_le`: a number below `2 ^ k` has at most `k` ones.
* `rank_sub_of_lt`, `lt_rank_sub`: what taking a power of two away does to the rank.
-/

namespace Ruler

/-- How often two divides a number. -/
def rank (n : ℕ) : ℕ := padicValNat 2 n

/-- The number of ones in binary. -/
def ones (n : ℕ) : ℕ := (Nat.digits 2 n).sum

variable {n k : ℕ}

@[simp] theorem ones_zero : ones 0 = 0 := rfl

/-- The lowest digit and the rest. -/
theorem ones_div (n : ℕ) : ones n = n % 2 + ones (n / 2) := by
  rcases Nat.eq_zero_or_pos n with rfl | hn
  · rfl
  · unfold ones
    rw [Nat.digits_def' (by decide) hn, List.sum_cons]

/-- **One more**: the trailing ones become zeros. -/
theorem ones_succ (n : ℕ) : ones (n + 1) + rank (n + 1) = ones n + 1 := by
  have hfact : ∀ m, padicValNat 2 m.factorial + ones m = m := by
    intro m
    have h := sub_one_mul_padicValNat_factorial (p := 2) m
    have hle := Nat.digit_sum_le 2 m
    unfold ones
    omega
  have hmul : padicValNat 2 (n + 1).factorial = rank (n + 1) + padicValNat 2 n.factorial := by
    rw [Nat.factorial_succ]
    exact padicValNat.mul (Nat.succ_ne_zero n) (Nat.factorial_ne_zero n)
  have h1 := hfact (n + 1)
  have h0 := hfact n
  omega

theorem ones_pos (h : n ≠ 0) : 0 < ones n := by
  induction n using Nat.strongRecOn with
  | ind n ih =>
    rw [ones_div]
    rcases Nat.mod_two_eq_zero_or_one n with heven | hodd
    · have hhalf := ih (n / 2) (by omega) (by omega)
      omega
    · omega

/-- A number of `k` digits has `k` ones at most. -/
theorem ones_le (h : n < 2 ^ k) : ones n ≤ k := by
  induction k generalizing n with
  | zero =>
    have hn : n = 0 := by omega
    rw [hn]; exact Nat.le_refl _
  | succ k ih =>
    have hhalf : n / 2 < 2 ^ k := by rw [pow_succ] at h; omega
    have hrest := ih hhalf
    rw [ones_div]
    omega

/-- One more digit. -/
theorem ones_add_pow (h : n < 2 ^ k) : ones (2 ^ k + n) = ones n + 1 := by
  induction k generalizing n with
  | zero =>
    have hn : n = 0 := by omega
    rw [hn]; rfl
  | succ k ih =>
    rw [pow_succ] at h ⊢
    have hhalf := ih (n := n / 2) (by omega)
    rw [ones_div (2 ^ k * 2 + n), ones_div n, show (2 ^ k * 2 + n) % 2 = n % 2 by omega,
      show (2 ^ k * 2 + n) / 2 = 2 ^ k + n / 2 by omega, hhalf]
    omega

theorem pow_dvd_iff (h : n ≠ 0) : 2 ^ k ∣ n ↔ k ≤ rank n := padicValNat_dvd_iff_le h

theorem pow_rank_le (h : n ≠ 0) : 2 ^ rank n ≤ n :=
  Nat.le_of_dvd (Nat.pos_of_ne_zero h) pow_padicValNat_dvd

/-- The rank is what divides and no more. -/
theorem rank_eq (h : 2 ^ k ∣ n) (hno : ¬ 2 ^ (k + 1) ∣ n) : rank n = k := by
  have hn : n ≠ 0 := by rintro rfl; exact hno (dvd_zero _)
  have hle := (pow_dvd_iff hn).1 h
  have hlt := mt (pow_dvd_iff hn).2 hno
  omega

/-- A power below the rank, taken away, becomes the rank. -/
theorem rank_sub_of_lt (h : k < rank n) : rank (n - 2 ^ k) = k := by
  have hn : n ≠ 0 := by
    rintro rfl
    have hzero : rank 0 = 0 := padicValNat_zero_right 2
    omega
  have hdvd : 2 ^ (k + 1) ∣ n := (pow_dvd_iff hn).2 h
  have hle : 2 ^ k ≤ n :=
    le_trans (Nat.pow_le_pow_right (by decide) h.le) (pow_rank_le hn)
  apply rank_eq
  · exact Nat.dvd_sub (dvd_trans (pow_dvd_pow 2 (Nat.le_succ k)) hdvd) dvd_rfl
  · intro hd
    have hpow : 2 ^ (k + 1) ∣ 2 ^ k := by
      have hsub := Nat.dvd_sub hdvd hd
      rwa [Nat.sub_sub_self hle] at hsub
    have hlt : 2 ^ k < 2 ^ (k + 1) := Nat.pow_lt_pow_right (by decide) (Nat.lt_succ_self k)
    exact absurd (Nat.le_of_dvd (Nat.two_pow_pos k) hpow) (by omega)

/-- The lowest one, taken away, leaves a higher rank. -/
theorem lt_rank_sub (h : n - 2 ^ rank n ≠ 0) : rank n < rank (n - 2 ^ rank n) := by
  have hn : n ≠ 0 := by rintro rfl; exact h (Nat.zero_sub _)
  obtain ⟨m, hm⟩ : 2 ^ rank n ∣ n := pow_padicValNat_dvd
  have hodd : m % 2 = 1 := by
    by_contra heven
    have htwo : 2 ^ (rank n + 1) ∣ n := by
      rw [pow_succ]
      conv_rhs => rw [hm]
      exact mul_dvd_mul_left _ (Nat.dvd_of_mod_eq_zero (by omega))
    have hle := (pow_dvd_iff hn).1 htwo
    omega
  have hsub : n - 2 ^ rank n = 2 ^ rank n * (m - 1) := by
    rw [Nat.mul_sub_one, ← hm]
  have hdvd : 2 ^ (rank n + 1) ∣ n - 2 ^ rank n := by
    rw [hsub, pow_succ]
    exact mul_dvd_mul_left _ (Nat.dvd_of_mod_eq_zero (by omega))
  exact (pow_dvd_iff h).1 hdvd

theorem rank_pos_of_even (hn : n ≠ 0) (h : n % 2 = 0) : 0 < rank n :=
  (pow_dvd_iff hn).1 (Nat.dvd_of_mod_eq_zero h)

end Ruler
