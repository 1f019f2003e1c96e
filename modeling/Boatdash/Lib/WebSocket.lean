import Mathlib.Algebra.Ring.Nat
import Mathlib.Data.List.Basic

/-!
# Frames a WebSocket client sends

An unfragmented text frame on the wire: a first byte, the length in one of three forms, the
masking key, and the payload masked with it. `readHeader` reads a frame after its first byte.

* `beNat_beBytes`: a number written in `k` bytes, most significant first, reads back.
* `mask_mask`: masking twice gives the payload back.
* `readHeader_wire`: reading the header of a frame gives its length and key, and leaves the
  masked payload and what follows.
* `readHeader_opcode`: read from one byte too early, a text frame announces a byte of payload,
  and its second byte is taken for the key.
-/

namespace WebSocket

/-! ## Numbers in bytes -/

/-- `n` in `k` bytes, most significant first. -/
def beBytes : ℕ → ℕ → List UInt8
  | 0, _ => []
  | k + 1, n => beBytes k (n / 256) ++ [UInt8.ofNat n]

/-- The number that bytes stand for, most significant first. -/
def beNat (bs : List UInt8) : ℕ := bs.foldl (fun n b => n * 256 + b.toNat) 0

@[simp] theorem length_beBytes (k n : ℕ) : (beBytes k n).length = k := by
  induction k generalizing n with
  | zero => rfl
  | succ k ih => simp [beBytes, ih]

/-- **What is written in enough bytes reads back.** -/
theorem beNat_beBytes {k n : ℕ} (h : n < 256 ^ k) : beNat (beBytes k n) = n := by
  induction k generalizing n with
  | zero =>
    have hzero : n = 0 := by omega
    subst hzero; rfl
  | succ k ih =>
    have hhigh : n / 256 < 256 ^ k := by
      rw [Nat.div_lt_iff_lt_mul (by decide), ← Nat.pow_succ]; exact h
    have hlow : (UInt8.ofNat n).toNat = n % 256 := UInt8.toNat_ofNat' ..
    have hsplit : beNat (beBytes (k + 1) n) = beNat (beBytes k (n / 256)) * 256 + n % 256 := by
      simp only [beNat, beBytes, List.foldl_append, List.foldl_cons, List.foldl_nil, hlow]
    rw [hsplit, ih hhigh]
    omega

/-! ## Masking -/

/-- A payload masked with a key, byte by byte, from the `i`-th byte on. -/
def maskFrom (key : List UInt8) (i : ℕ) : List UInt8 → List UInt8
  | [] => []
  | b :: bs => (b ^^^ key.getD (i % 4) 0) :: maskFrom key (i + 1) bs

/-- A masked payload; the same for an unmasked one. -/
def mask (key bs : List UInt8) : List UInt8 := maskFrom key 0 bs

theorem length_maskFrom (key : List UInt8) (i : ℕ) (bs : List UInt8) :
    (maskFrom key i bs).length = bs.length := by
  induction bs generalizing i with
  | nil => rfl
  | cons b bs ih => simp [maskFrom, ih]

@[simp] theorem length_mask (key bs : List UInt8) : (mask key bs).length = bs.length :=
  length_maskFrom key 0 bs

/-- **Masking twice.** -/
theorem mask_mask (key bs : List UInt8) : mask key (mask key bs) = bs := by
  have hfrom : ∀ i, maskFrom key i (maskFrom key i bs) = bs := by
    induction bs with
    | nil => intro i; rfl
    | cons b bs ih =>
      intro i
      simp only [maskFrom, ih, UInt8.xor_assoc, UInt8.xor_self, UInt8.xor_zero]
  exact hfrom 0

/-! ## Frames -/

/-- How a length is written: in the second byte itself, or in two or eight bytes after it. -/
inductive LenForm
  | short
  | medium
  | long
deriving DecidableEq

/-- The lengths a form takes. -/
def LenForm.bound : LenForm → ℕ
  | .short => 126
  | .medium => 2 ^ 16
  | .long => 2 ^ 63

/-- The second byte, with the mask bit set, and the length after it. -/
def LenForm.bytes : LenForm → ℕ → List UInt8
  | .short, n => [UInt8.ofNat (128 + n)]
  | .medium, n => 254 :: beBytes 2 n
  | .long, n => 255 :: beBytes 8 n

/-- An unfragmented text frame of a client: its length fits the form it is written in. -/
structure ClientFrame where
  form : LenForm
  key : List UInt8
  payload : List UInt8
  key_length : key.length = 4
  fits : payload.length < form.bound

namespace ClientFrame

/-- The frame after its first byte. -/
def wire (f : ClientFrame) : List UInt8 :=
  f.form.bytes f.payload.length ++ f.key ++ mask f.key f.payload

theorem key_le_wire (f : ClientFrame) : 4 ≤ f.wire.length := by
  have hkey := f.key_length
  unfold wire
  rw [List.length_append, List.length_append]
  omega

/-- The frame: `FIN` and the text opcode first. -/
def encode (f : ClientFrame) : List UInt8 := 129 :: f.wire

end ClientFrame

/-! ## Reading a header -/

/-- The bytes of the length after the second byte. -/
def extLength (b : UInt8) : ℕ :=
  if b.toNat % 128 = 126 then 2 else if b.toNat % 128 = 127 then 8 else 0

/-- The header of a frame after its first byte: the length, the key and what follows. Nothing if
there are too few bytes, or the frame is not masked. -/
def readHeader : List UInt8 → Option (ℕ × List UInt8 × List UInt8)
  | [] => none
  | b :: bs =>
    let k := extLength b
    if b.toNat < 128 ∨ bs.length < k + 4 then none
    else
      let n := if k = 0 then b.toNat % 128 else beNat (bs.take k)
      some (n, (bs.drop k).take 4, bs.drop (k + 4))

/-- A masked second byte with the length bytes it announces. -/
theorem readHeader_bytes {b : UInt8} {len key : List UInt8} (hb : 128 ≤ b.toNat)
    (hlen : len.length = extLength b) (hkey : key.length = 4) (rest : List UInt8) :
    readHeader (b :: (len ++ (key ++ rest))) =
      some (if extLength b = 0 then b.toNat % 128 else beNat len, key, rest) := by
  have hall : (len ++ (key ++ rest)).length = extLength b + 4 + rest.length := by
    rw [List.length_append, List.length_append, hlen, hkey]; omega
  have hno : ¬ (b.toNat < 128 ∨ (len ++ (key ++ rest)).length < extLength b + 4) := by omega
  have htake : (len ++ (key ++ rest)).take (extLength b) = len := by
    rw [← hlen]; exact List.take_left
  have hdrop : (len ++ (key ++ rest)).drop (extLength b) = key ++ rest := by
    rw [← hlen]; exact List.drop_left
  have hafter : (len ++ (key ++ rest)).drop (extLength b + 4) = rest := by
    rw [← List.drop_drop, hdrop, ← hkey]; exact List.drop_left
  have hfour : (key ++ rest).take 4 = key := by
    rw [← hkey]; exact List.take_left
  simp only [readHeader, if_neg hno, htake, hdrop, hafter, hfour]

/-- The second byte with the length after it, read back. -/
theorem readHeader_form (form : LenForm) {n : ℕ} (h : n < form.bound) {key : List UInt8}
    (hkey : key.length = 4) (rest : List UInt8) :
    readHeader (form.bytes n ++ (key ++ rest)) = some (n, key, rest) := by
  cases form with
  | short =>
    have hn : n < 126 := h
    have hbyte : (UInt8.ofNat (128 + n)).toNat = 128 + n := by
      rw [UInt8.toNat_ofNat']; omega
    have hk : extLength (UInt8.ofNat (128 + n)) = 0 := by
      unfold extLength
      rw [hbyte, if_neg (by omega), if_neg (by omega)]
    have hnone : ([] : List UInt8).length = extLength (UInt8.ofNat (128 + n)) := hk.symm
    have hread := readHeader_bytes (by omega) hnone hkey rest
    rw [hk, if_pos rfl, hbyte] at hread
    have hmod : (128 + n) % 128 = n := by omega
    rw [hmod] at hread
    exact hread
  | medium =>
    have hread := readHeader_bytes (b := 254) (by decide) (length_beBytes 2 n) hkey rest
    have hn : n < 256 ^ 2 := h
    rw [beNat_beBytes hn] at hread
    exact hread
  | long =>
    have hread := readHeader_bytes (b := 255) (by decide) (length_beBytes 8 n) hkey rest
    have hn : n < 256 ^ 8 := Nat.lt_trans h (by decide)
    rw [beNat_beBytes hn] at hread
    exact hread

/-- The first byte of a text frame taken for the second: one byte of payload is announced. -/
theorem readHeader_opcode {bs : List UInt8} (h : 4 ≤ bs.length) :
    readHeader (129 :: bs) = some (1, bs.take 4, bs.drop 4) := by
  have hk : extLength 129 = 0 := by decide
  have hno : ¬ ((129 : UInt8).toNat < 128 ∨ bs.length < 0 + 4) := by
    have hmasked : ¬ (129 : UInt8).toNat < 128 := by decide
    omega
  simp only [readHeader, hk, if_neg hno]
  rfl

/-- **Reading the header of a frame.** -/
theorem readHeader_wire (f : ClientFrame) (rest : List UInt8) :
    readHeader (f.wire ++ rest) =
      some (f.payload.length, f.key, mask f.key f.payload ++ rest) := by
  unfold ClientFrame.wire
  rw [List.append_assoc, List.append_assoc]
  exact readHeader_form f.form f.fits f.key_length _

end WebSocket
