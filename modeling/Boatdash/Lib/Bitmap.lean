import Mathlib.Data.Nat.Bitwise
import Mathlib.Data.List.Basic

/-!
# Bitmaps in bytes

Bit `i` of a list of bytes is bit `i % 8` of byte `i / 8`, as C code keeps it. `test` and `mark`
are the two expressions of such code, a byte masked and a byte or-ed with `1 << i % 8`.

* `test_foldl`: after the bits of a list are marked in a cleared map, these are set and no others.
-/

namespace Bitmap

/-- The mask of a bit in its byte. -/
def mask (i : ℕ) : UInt8 := 1 <<< UInt8.ofNat (i % 8)

/-- Whether bit `i` is set. There is none past the end. -/
def test (b : List UInt8) (i : ℕ) : Bool := b[i / 8]?.getD 0 &&& mask i ≠ 0

/-- Sets bit `i`. -/
def mark (b : List UInt8) (i : ℕ) : List UInt8 := b.modify (i / 8) (· ||| mask i)

variable {b : List UInt8} {i j : ℕ}

theorem mask_toNat (i : ℕ) : (mask i).toNat = 2 ^ (i % 8) := by
  have hlt : i % 8 < 8 := Nat.mod_lt i (by decide)
  have hshift : (UInt8.ofNat (i % 8)).toNat = i % 8 := by
    rw [UInt8.toNat_ofNat']
    exact Nat.mod_eq_of_lt (by omega)
  have hpow : 2 ^ (i % 8) < 2 ^ 8 := Nat.pow_lt_pow_right (by decide) hlt
  unfold mask
  rw [UInt8.toNat_shiftLeft, hshift, Nat.mod_eq_of_lt hlt, Nat.shiftLeft_eq]
  simpa using Nat.mod_eq_of_lt hpow

theorem test_eq (b : List UInt8) (i : ℕ) :
    test b i = (b[i / 8]?.getD 0).toNat.testBit (i % 8) := by
  unfold test
  rw [Bool.eq_iff_iff, decide_eq_true_iff, Ne, ← UInt8.toNat_inj, UInt8.toNat_and, mask_toNat,
    Nat.and_two_pow]
  cases (b[i / 8]?.getD 0).toNat.testBit (i % 8) <;> simp

@[simp] theorem length_mark (b : List UInt8) (i : ℕ) : (mark b i).length = b.length :=
  List.length_modify ..

/-- Marking a bit sets it and leaves the others. -/
theorem test_mark (h : i < 8 * b.length) (j : ℕ) :
    test (mark b i) j = (decide (j = i) || test b j) := by
  have hi : i / 8 < b.length := by omega
  rw [test_eq, test_eq]
  unfold mark
  rw [List.getElem?_modify]
  by_cases hbyte : i / 8 = j / 8
  · -- the same byte: the bit or another one
    have hj : j / 8 < b.length := hbyte ▸ hi
    have hsame : i % 8 = j % 8 ↔ j = i := by omega
    simp only [if_pos hbyte, List.getElem?_eq_getElem hj]
    show ((b[j / 8] ||| mask i).toNat).testBit (j % 8) = _
    rw [UInt8.toNat_or, Nat.testBit_or, mask_toNat, Nat.testBit_two_pow, Bool.or_comm]
    simp only [hsame]; rfl
  · have hne : j ≠ i := by rintro rfl; exact hbyte rfl
    simp only [if_neg hbyte]
    simp [hne]

@[simp] theorem test_clear (n i : ℕ) : test (List.replicate n 0) i = false := by
  rw [test_eq, List.getElem?_replicate]
  split <;> simp

/-- The bits of a list marked one after another. -/
theorem test_foldl {α : Type*} (f : α → ℕ) (keep : α → Bool) (l : List α) (b : List UInt8)
    (h : ∀ x ∈ l, keep x → f x < 8 * b.length) (j : ℕ) :
    test (l.foldl (fun b x => if keep x then mark b (f x) else b) b) j =
      (test b j || l.any fun x => keep x && decide (j = f x)) := by
  induction l generalizing b with
  | nil => simp
  | cons x l ih =>
    rw [List.foldl_cons, List.any_cons]
    by_cases hx : keep x
    · have hmark : test (mark b (f x)) j = (decide (j = f x) || test b j) :=
        test_mark (h x List.mem_cons_self hx) j
      rw [if_pos hx, ih, hmark, hx, Bool.true_and, Bool.or_comm (decide _), Bool.or_assoc]
      intro y hy hk
      rw [length_mark]
      exact h y (List.mem_cons_of_mem x hy) hk
    · have hno : keep x = false := Bool.eq_false_of_not_eq_true hx
      rw [if_neg hx, ih b fun y hy => h y (List.mem_cons_of_mem x hy), hno, Bool.false_and,
        Bool.false_or]

end Bitmap
