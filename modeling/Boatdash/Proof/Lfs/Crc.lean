import Boatdash.Lib.Crc
import Boatdash.Spec.Lfs.Util

/-!
# The checksum of the metadata log

`lfs_crc`, which takes half a byte at a time from a table, is the check bit by bit (`crc_bits`).
So what is true of any such check is true of it: `crc_burst`, **a change within four bytes
changes it**, and `crc_check_iff`, **run over a commit with the stored checksum it gives zero
exactly if that checksum is right**, the last test of `lfs_dir_commitcrc`.
-/

namespace Boatdash.Lfs

/-- The polynomial `0x04c11db7` with its bits reversed. -/
def poly : BitVec 32 := 0xedb88320#32

/-- The bytes of a buffer as bit vectors. -/
def bits (l : List UInt8) : List (BitVec 8) := l.map (·.toBitVec)

variable {s : UInt32} {l : List UInt8}

/-- A table entry is four steps from its number. -/
theorem rtable_eq (x : BitVec 4) :
    (rtable.getD x.toNat 0).toBitVec = Crc.steps poly 4 (x.setWidth 32) := by
  revert x
  decide

/-- Half a byte: four steps with `d` taken in, less the bits of `d` not yet due. -/
theorem crcHalf_eq (s d : UInt32) :
    (crcHalf s d).toBitVec =
      Crc.steps poly 4 (s.toBitVec ^^^ d.toBitVec) ^^^ d.toBitVec >>> 4 := by
  have hmask : ((s ^^^ d) &&& 0xf).toNat = ((s.toBitVec ^^^ d.toBitVec).setWidth 4).toNat := by
    rw [UInt32.toNat_and, BitVec.toNat_setWidth]
    exact Nat.and_two_pow_sub_one_eq_mod _ 4
  have hshift : (s >>> 4).toBitVec = s.toBitVec >>> 4 := rfl
  unfold crcHalf
  rw [hmask, UInt32.toBitVec_xor, rtable_eq, hshift, Crc.steps_split 4 (s.toBitVec ^^^ d.toBitVec),
    BitVec.ushiftRight_xor_distrib]
  have hcancel : ∀ a b t : BitVec 32, a ^^^ t = a ^^^ b ^^^ t ^^^ b := by
    intro a b t
    rw [BitVec.xor_assoc a, BitVec.xor_comm b, BitVec.xor_assoc, BitVec.xor_assoc, BitVec.xor_self,
      BitVec.xor_zero]
  exact hcancel ..

/-- One byte. -/
theorem crcByte_eq (s : UInt32) (b : UInt8) :
    (crcByte s b).toBitVec = Crc.byte poly s.toBitVec b.toBitVec := by
  set d := b.toUInt32 with hd
  have hwide : d.toBitVec = b.toBitVec.setWidth 32 := rfl
  have hhigh : (d >>> 4).toBitVec = d.toBitVec >>> 4 := rfl
  have hnone : d.toBitVec >>> 4 >>> 4 = 0#32 := by
    rw [hwide, ← BitVec.shiftRight_add]
    apply BitVec.eq_of_toNat_eq
    rw [BitVec.toNat_ushiftRight, BitVec.toNat_setWidth, Nat.shiftRight_eq_div_pow]
    have := b.toBitVec.isLt
    show b.toBitVec.toNat % 2 ^ 32 / 2 ^ 8 = 0
    omega
  unfold crcByte Crc.byte
  rw [crcHalf_eq, hhigh, hnone, BitVec.xor_zero, crcHalf_eq, BitVec.xor_assoc, BitVec.xor_self,
    BitVec.xor_zero, hwide]
  exact (Crc.steps_add 4 4 _).symm

/-- **The table does what the single bits do.** -/
theorem crc_bits (s : UInt32) (l : List UInt8) :
    (crc s l).toBitVec = Crc.bytes poly s.toBitVec (bits l) := by
  induction l generalizing s with
  | nil => rfl
  | cons b l ih =>
    have hstep : crc s (b :: l) = crc (crcByte s b) l := rfl
    rw [hstep, ih, crcByte_eq]
    rfl

theorem poly_msb : poly.msb = true := by decide

theorem length_bits (l : List UInt8) : (bits l).length = l.length := List.length_map ..

theorem bits_append (l k : List UInt8) : bits (l ++ k) = bits l ++ bits k := List.map_append

theorem bits_inj {k : List UInt8} (h : bits l = bits k) : l = k :=
  List.map_injective_iff.2 (fun _ _ => UInt8.toBitVec_inj.1) h

/-- **A change within four bytes** changes the checksum, wherever they stand. -/
theorem crc_burst (s : UInt32) (pre post : List UInt8) {a b : List UInt8}
    (hlen : a.length = b.length) (hfour : a.length ≤ 4) (hne : a ≠ b) :
    crc s (pre ++ a ++ post) ≠ crc s (pre ++ b ++ post) := by
  intro h
  have hbits := congrArg UInt32.toBitVec h
  rw [crc_bits, crc_bits, bits_append, bits_append, bits_append, bits_append] at hbits
  refine Crc.bytes_burst poly_msb ?_ ?_ (fun he => hne (bits_inj he)) _ _ _ hbits
  · rw [length_bits, length_bits, hlen]
  · rw [length_bits]; omega

/-- A flipped byte in the middle of a commit. -/
theorem crc_burst_flip : crc 0xffffffff ([1, 2] ++ [3] ++ [4, 5]) ≠
    crc 0xffffffff ([1, 2] ++ [19] ++ [4, 5]) :=
  crc_burst 0xffffffff [1, 2] [4, 5] rfl (by decide) (by decide)

theorem word_le32 (a : UInt32) : Crc.word 32 (bits (le32 a)) = a.toBitVec := by
  have hbyte : ∀ (k : ℕ) (b : UInt32), b.toBitVec = a.toBitVec >>> k → ∀ j < 8,
      b.toUInt8.toBitVec.getLsbD j = a.toBitVec.getLsbD (k + j) := by
    intro k b hb j hj
    have hlow : b.toUInt8.toBitVec = b.toBitVec.setWidth 8 := rfl
    rw [hlow, BitVec.getLsbD_setWidth, hb, BitVec.getLsbD_ushiftRight]
    simp [hj]
  apply BitVec.eq_of_getLsbD_eq
  intro i hi
  have hmod : i % 8 < 8 := Nat.mod_lt i (by decide)
  have hi' : i = 8 * (i / 8) + i % 8 := by omega
  rw [Crc.getLsbD_word, decide_eq_true hi, Bool.true_and]
  generalize i / 8 = q at hi' ⊢
  generalize i % 8 = r at hi' hmod ⊢
  subst hi'
  match q, hi with
  | 0, _ => exact hbyte 0 a (BitVec.ushiftRight_zero _).symm r hmod
  | 1, _ => exact hbyte 8 (a >>> 8) rfl r hmod
  | 2, _ => exact hbyte 16 (a >>> 16) rfl r hmod
  | 3, _ => exact hbyte 24 (a >>> 24) rfl r hmod
  | q + 4, hi => omega

/-- **The stored checksum is right** exactly if a check over the bytes and it gives zero. -/
theorem crc_check_iff (s : UInt32) (l : List UInt8) {t : List UInt8} (h : t.length = 4) :
    crc s (l ++ t) = 0 ↔ t = le32 (crc s l) := by
  have hfit : 8 * (bits t).length ≤ 32 := by rw [length_bits, h]
  rw [← UInt32.toBitVec_inj, crc_bits, bits_append]
  show Crc.bytes poly s.toBitVec (bits l ++ bits t) = 0 ↔ _
  rw [Crc.bytes_eq_zero_iff poly_msb hfit, ← crc_bits, ← word_le32]
  constructor
  · intro hword
    refine bits_inj (Crc.word_inj ?_ hfit hword)
    rw [length_bits, length_bits, h]; rfl
  · rintro rfl; rfl

/-- The checksum that belongs to two bytes. -/
theorem crc_check_iff_stored : crc 0xffffffff ([1, 2] ++ le32 (crc 0xffffffff [1, 2])) = 0 :=
  (crc_check_iff 0xffffffff [1, 2] rfl).2 rfl

end Boatdash.Lfs
