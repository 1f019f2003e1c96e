import Mathlib.Logic.Function.Iterate
import Mathlib.Data.BitVec

/-!
# Cyclic redundancy checks, bit by bit

The check of a stream is the remainder of dividing its bits by a polynomial. `step` is one step of
that division with the low bit first: the register moves down, and takes in the polynomial `poly`
(its bits reversed, the leading one left out) when a one falls out. `bytes` runs it over bytes.

* `steps_split`: `n` steps from the low `n` bits alone, with the others moved down: what a lookup
  table rests on.
* `bytes_word`: bytes that fit into the register are taken in as one number.
* `bytes_burst`: a change that lies within one register's width of bytes changes the check.
* `bytes_eq_zero_iff`: a stream and a check after it give zero exactly if the check is the stream's.
-/

namespace Crc

variable {w : ℕ} (poly : BitVec w)

/-- One bit. -/
def step (s : BitVec w) : BitVec w := if s.getLsbD 0 then (s >>> 1) ^^^ poly else s >>> 1

/-- `n` bits. -/
def steps (n : ℕ) (s : BitVec w) : BitVec w := (step poly)^[n] s

/-- One byte. -/
def byte (s : BitVec w) (b : BitVec 8) : BitVec w := steps poly 8 (s ^^^ b.setWidth w)

/-- A stream of bytes. -/
def bytes (s : BitVec w) (l : List (BitVec 8)) : BitVec w := l.foldl (byte poly) s

variable {poly} {n m : ℕ} {x y s : BitVec w} {l : List (BitVec 8)}

/-! ## Linearity -/

theorem step_xor (x y : BitVec w) : step poly (x ^^^ y) = step poly x ^^^ step poly y := by
  have hcancel : ∀ a b : BitVec w, a ^^^ poly ^^^ (b ^^^ poly) = a ^^^ b := by
    intro a b
    rw [BitVec.xor_assoc a, ← BitVec.xor_assoc poly, BitVec.xor_comm poly b, BitVec.xor_assoc b,
      BitVec.xor_self, BitVec.xor_zero]
  unfold step
  rw [BitVec.getLsbD_xor, BitVec.ushiftRight_xor_distrib]
  cases x.getLsbD 0 <;> cases y.getLsbD 0
  · rfl
  · exact BitVec.xor_assoc ..
  · show x >>> 1 ^^^ y >>> 1 ^^^ poly = x >>> 1 ^^^ poly ^^^ y >>> 1
    ac_rfl
  · exact (hcancel _ _).symm

theorem steps_succ (n : ℕ) (x : BitVec w) : steps poly (n + 1) x = steps poly n (step poly x) := rfl

theorem steps_add (n m : ℕ) (x : BitVec w) :
    steps poly (n + m) x = steps poly n (steps poly m x) := Function.iterate_add_apply ..

theorem steps_xor (n : ℕ) (x y : BitVec w) :
    steps poly n (x ^^^ y) = steps poly n x ^^^ steps poly n y := by
  induction n generalizing x y with
  | zero => rfl
  | succ n ih => rw [steps_succ, step_xor, ih]; rfl

theorem steps_zero (n : ℕ) : steps poly n 0 = 0 := by
  have h : steps poly n (0 ^^^ 0) = steps poly n 0 ^^^ steps poly n 0 := steps_xor n 0 0
  rw [BitVec.xor_self, BitVec.xor_self] at h
  exact h

/-- Where no one falls out, the register moves down. -/
theorem steps_high (h : ∀ i < n, x.getLsbD i = false) : steps poly n x = x >>> n := by
  induction n generalizing x with
  | zero => exact (BitVec.ushiftRight_zero x).symm
  | succ n ih =>
    have hlow : x.getLsbD 0 = false := h 0 (Nat.succ_pos n)
    have hstep : step poly x = x >>> 1 := by
      unfold step
      rw [hlow]
      rfl
    rw [steps_succ, hstep, ih, ← BitVec.shiftRight_add, Nat.add_comm 1 n]
    intro i hi
    rw [BitVec.getLsbD_ushiftRight]
    exact h (1 + i) (by omega)

/-- **The low bits alone**, and the others moved down. -/
theorem steps_split (n : ℕ) (x : BitVec w) :
    steps poly n x = x >>> n ^^^ steps poly n ((x.setWidth n).setWidth w) := by
  set low := (x.setWidth n).setWidth w with hlow
  have hbit : ∀ i, low.getLsbD i = (decide (i < n) && x.getLsbD i) := by
    intro i
    rw [hlow, BitVec.getLsbD_setWidth, BitVec.getLsbD_setWidth]
    by_cases hi : i < w
    · simp [hi]
    · simp [hi, BitVec.getLsbD_of_ge x i (by omega)]
  have hhigh : ∀ i < n, (x ^^^ low).getLsbD i = false := by
    intro i hi
    rw [BitVec.getLsbD_xor, hbit]
    simp [hi]
  have hshift : (x ^^^ low) >>> n = x >>> n := by
    apply BitVec.eq_of_getLsbD_eq
    intro i _
    have hout : ¬ n + i < n := by omega
    rw [BitVec.getLsbD_ushiftRight, BitVec.getLsbD_xor, hbit, BitVec.getLsbD_ushiftRight]
    simp [hout]
  calc steps poly n x = steps poly n (x ^^^ low ^^^ low) := by
        rw [BitVec.xor_assoc, BitVec.xor_self, BitVec.xor_zero]
    _ = x >>> n ^^^ steps poly n low := by rw [steps_xor, steps_high hhigh, hshift]

/-! ## The register as a number -/

/-- Bytes as one number, the first lowest. -/
def word (w : ℕ) : List (BitVec 8) → BitVec w
  | [] => 0
  | b :: l => b.setWidth w ^^^ word w l <<< 8

theorem getLsbD_word (w : ℕ) (l : List (BitVec 8)) (i : ℕ) :
    (word w l).getLsbD i = (decide (i < w) && (l[i / 8]?.getD 0).getLsbD (i % 8)) := by
  induction l generalizing i with
  | nil => simp [word]
  | cons b l ih =>
    unfold word
    rw [BitVec.getLsbD_xor, BitVec.getLsbD_shiftLeft, BitVec.getLsbD_setWidth, ih]
    rcases Nat.lt_or_ge i 8 with h | h
    · have hdiv : i / 8 = 0 := Nat.div_eq_of_lt h
      simp [h, hdiv, Nat.mod_eq_of_lt h]
    · have hdiv : i / 8 = (i - 8) / 8 + 1 := by omega
      have hmod : i % 8 = (i - 8) % 8 := by omega
      have hbyte : b.getLsbD i = false := BitVec.getLsbD_of_ge b i h
      have hlt : ¬ i < 8 := by omega
      by_cases hw : i < w
      · simp [hbyte, hlt, hw, hdiv, hmod, show i - 8 < w by omega]
      · simp [hw]

/-- **Bytes that fit into the register** are taken in as one number. -/
theorem bytes_word (h : 8 * l.length ≤ w) (s : BitVec w) :
    bytes poly s l = steps poly (8 * l.length) (s ^^^ word w l) := by
  induction l generalizing s with
  | nil =>
    show s = s ^^^ 0#w
    exact (BitVec.xor_zero).symm
  | cons b l ih =>
    rw [List.length_cons] at h ⊢
    have hrest : steps poly 8 (word w l <<< 8) = word w l := by
      rw [steps_high]
      · apply BitVec.eq_of_getLsbD_eq
        intro i hi
        rw [BitVec.getLsbD_ushiftRight, BitVec.getLsbD_shiftLeft, Nat.add_sub_cancel_left]
        by_cases hfit : 8 + i < w
        · simp [hfit]
        · -- past the bytes there are no ones
          have hnone : l[i / 8]? = none := List.getElem?_eq_none (by omega)
          rw [getLsbD_word, hnone]
          simp [hfit]
      · intro i hi
        rw [BitVec.getLsbD_shiftLeft]
        simp [hi]
    have hword : word w (b :: l) = b.setWidth w ^^^ word w l <<< 8 := rfl
    show bytes poly (byte poly s b) l = _
    rw [ih (by omega), Nat.mul_succ, steps_add, hword, ← BitVec.xor_assoc,
      steps_xor 8 _ (word w l <<< 8), hrest]
    rfl

theorem word_inj {k : List (BitVec 8)} (hlen : l.length = k.length) (hfit : 8 * l.length ≤ w)
    (h : word w l = word w k) : l = k := by
  apply List.ext_getElem hlen
  intro i hi hk
  apply BitVec.eq_of_getLsbD_eq
  intro j hj
  have hbit := congrArg (fun x => x.getLsbD (8 * i + j)) h
  simp only [getLsbD_word] at hbit
  rw [show (8 * i + j) / 8 = i by omega, show (8 * i + j) % 8 = j by omega,
    List.getElem?_eq_getElem hi, List.getElem?_eq_getElem hk] at hbit
  simpa [show 8 * i + j < w by omega] using hbit

/-! ## What a check notices -/

/-- A step loses nothing: the top bit of the result tells whether a one fell out. -/
theorem step_eq_zero (hp : poly.msb = true) (h : step poly x = 0) : x = 0 := by
  have hw : 0 < w := by
    rcases Nat.eq_zero_or_pos w with rfl | hw
    · rw [BitVec.msb_of_zero_length rfl poly] at hp; cases hp
    · exact hw
  have htop : (x >>> 1).getLsbD (w - 1) = false := by
    rw [BitVec.getLsbD_ushiftRight]
    exact BitVec.getLsbD_of_ge x _ (by omega)
  rw [BitVec.msb_eq_getLsbD_last] at hp
  unfold step at h
  cases hlow : x.getLsbD 0 with
  | true =>
    rw [hlow, if_pos rfl] at h
    have hbit := congrArg (fun y => y.getLsbD (w - 1)) h
    rw [BitVec.getLsbD_xor, htop, hp] at hbit
    simp at hbit
  | false =>
    rw [hlow] at h
    apply BitVec.eq_of_getLsbD_eq
    intro i _
    cases i with
    | zero => rw [hlow]; exact BitVec.getLsbD_zero.symm
    | succ i =>
      have hbit := congrArg (fun y => y.getLsbD i) h
      simp only [Bool.false_eq_true, if_false] at hbit
      rw [BitVec.getLsbD_ushiftRight, Nat.add_comm] at hbit
      rw [hbit]
      simp

theorem steps_eq_zero_iff (hp : poly.msb = true) : steps poly n x = 0 ↔ x = 0 := by
  constructor
  · intro h
    induction n generalizing x with
    | zero => exact h
    | succ n ih => exact step_eq_zero hp (ih h)
  · rintro rfl
    exact steps_zero n

theorem steps_inj (hp : poly.msb = true) (h : steps poly n x = steps poly n y) : x = y := by
  have hxor : steps poly n (x ^^^ y) = 0 := by
    rw [steps_xor, h]
    exact BitVec.xor_self
  exact BitVec.xor_eq_zero_iff.1 ((steps_eq_zero_iff hp).1 hxor)

theorem bytes_append (s : BitVec w) (l k : List (BitVec 8)) :
    bytes poly s (l ++ k) = bytes poly (bytes poly s l) k := List.foldl_append

/-- Different registers stay different. -/
theorem bytes_inj (hp : poly.msb = true) (h : bytes poly x l = bytes poly y l) : x = y := by
  induction l generalizing x y with
  | nil => exact h
  | cons b l ih =>
    exact (BitVec.xor_left_inj _).1 (steps_inj hp (ih h))

/-- **A change within one register's width of bytes** changes the check. -/
theorem bytes_burst (hp : poly.msb = true) {a b : List (BitVec 8)} (hlen : a.length = b.length)
    (hfit : 8 * a.length ≤ w) (hne : a ≠ b) (pre post : List (BitVec 8)) (s : BitVec w) :
    bytes poly s (pre ++ a ++ post) ≠ bytes poly s (pre ++ b ++ post) := by
  intro h
  rw [bytes_append, bytes_append, bytes_append, bytes_append] at h
  have hmid := bytes_inj hp h
  have hfit' : 8 * b.length ≤ w := hlen ▸ hfit
  rw [bytes_word (l := a) hfit, bytes_word (l := b) hfit', hlen] at hmid
  have hword := (BitVec.xor_right_inj _).1 (steps_inj hp hmid)
  exact hne (word_inj hlen hfit hword)

/-- **A check after its stream** gives zero, and no other number there does. -/
theorem bytes_eq_zero_iff (hp : poly.msb = true) {a : List (BitVec 8)} (hfit : 8 * a.length ≤ w)
    (s : BitVec w) (l : List (BitVec 8)) :
    bytes poly s (l ++ a) = 0 ↔ word w a = bytes poly s l := by
  rw [bytes_append, bytes_word hfit, steps_eq_zero_iff hp, eq_comm (a := word w a)]
  exact BitVec.xor_eq_zero_iff

end Crc
