import Boatdash.Lib.SkipList
import Boatdash.Spec.Lfs.Ctz

/-!
# Where a byte of a file is

The compiler's bit functions are the rank and the ones of a number, and `lfs_ctz_index` is the
arithmetic of backward skip lists with pointers of four bytes. `ctz_index_layout`: **for every
32-bit position and every block size that `lfs_init` accepts, `lfs_ctz_index` lays the bytes of a
file out in its blocks without a gap, behind the pointers of each.**
-/

namespace Boatdash.Lfs

open Ruler SkipList

variable {c : Config}

/-! ## The bit functions -/

theorem toNat_cpopNatRec (x : BitVec 32) (k : ℕ) : x.cpopNatRec k 0 = ones (x.toNat % 2 ^ k) := by
  induction k with
  | zero => rw [pow_zero, Nat.mod_one]; rfl
  | succ k ih =>
    rw [BitVec.cpopNatRec_succ, Nat.zero_add, BitVec.cpopNatRec_eq, ih, Nat.mod_pow_succ,
      ← BitVec.testBit_toNat, Nat.testBit_eq_decide_div_mod_eq]
    rcases Nat.mod_two_eq_zero_or_one (x.toNat / 2 ^ k) with hbit | hbit
    · rw [hbit]; rfl
    · rw [hbit, Nat.mul_one, Nat.add_comm _ (2 ^ k),
        ones_add_pow (Nat.mod_lt _ (Nat.two_pow_pos k))]
      rfl

theorem toNat_popc (a : UInt32) : (popc a).toNat = ones a.toNat := by
  have hlt : ones a.toNat ≤ 32 := ones_le a.toNat_lt
  have hrec := toNat_cpopNatRec a.toBitVec 32
  rw [Nat.mod_eq_of_lt a.toBitVec.isLt] at hrec
  show (BitVec.ofNat 32 (a.toBitVec.cpopNatRec 32 0)).toNat = _
  rw [hrec, BitVec.toNat_ofNat]
  exact Nat.mod_eq_of_lt (by show ones a.toNat < 2 ^ 32; omega)

theorem toNat_ctz {a : UInt32} (h : a ≠ 0) : (ctz a).toNat = rank a.toNat := by
  have hx : a.toBitVec ≠ 0#32 := fun h0 => h (UInt32.toBitVec_inj.1 h0)
  have hbit : a.toNat.testBit a.toBitVec.ctz.toNat = true := by
    show a.toBitVec.toNat.testBit _ = true
    rw [BitVec.testBit_toNat]
    exact BitVec.getLsbD_true_ctz_of_ne_zero hx
  symm
  apply rank_eq
  · apply Nat.dvd_of_mod_eq_zero
    apply Nat.eq_of_testBit_eq
    intro i
    rw [Nat.testBit_mod_two_pow, Nat.zero_testBit]
    by_cases hi : i < a.toBitVec.ctz.toNat
    · have hlow : a.toNat.testBit i = false := by
        show a.toBitVec.toNat.testBit i = false
        rw [BitVec.testBit_toNat]
        exact BitVec.getLsbD_false_of_lt_ctz hi
      show (decide (i < a.toBitVec.ctz.toNat) && a.toNat.testBit i) = false
      rw [hlow, Bool.and_false]
    · show (decide (i < a.toBitVec.ctz.toNat) && a.toNat.testBit i) = false
      rw [decide_eq_false hi, Bool.false_and]
  · intro hd
    have hmod := Nat.testBit_mod_two_pow a.toNat (a.toBitVec.ctz.toNat + 1) a.toBitVec.ctz.toNat
    have hzero : a.toNat % 2 ^ (a.toBitVec.ctz.toNat + 1) = 0 := Nat.mod_eq_zero_of_dvd hd
    rw [hzero, hbit, Nat.zero_testBit, decide_eq_true (Nat.lt_succ_self _)] at hmod
    cases hmod

/-- The pointer that just reaches over a distance. -/
theorem toNat_npw2 {d : UInt32} (h : d ≠ 0) : (npw2 (d + 1) - 1).toNat = d.toNat.log2 := by
  have hx : d.toBitVec ≠ 0#32 := fun h0 => h (UInt32.toBitVec_inj.1 h0)
  have hlow := BitVec.two_pow_sub_clz_le_toNat_of_ne_zero (by decide) hx
  have hhigh := BitVec.toNat_lt_two_pow_sub_clz (x := d.toBitVec)
  have hclz : d.toBitVec.clz.toNat < 32 := by
    have hlt := BitVec.clz_lt_iff_ne_zero.2 hx
    exact BitVec.lt_def.1 hlt
  have hnpw : npw2 (d + 1) = 32 - .ofBitVec d.toBitVec.clz := by
    unfold npw2
    rw [UInt32.add_sub_cancel]
  have hsub : (npw2 (d + 1)).toNat = 32 - d.toBitVec.clz.toNat := by
    rw [hnpw]
    exact UInt32.toNat_sub_of_le _ _ (UInt32.le_iff_toNat_le.2 hclz.le)
  have hone : (npw2 (d + 1) - 1).toNat = 31 - d.toBitVec.clz.toNat := by
    rw [UInt32.toNat_sub_of_le _ _ (UInt32.le_iff_toNat_le.2 (by rw [hsub]; show 1 ≤ _; omega)),
      hsub]
    show 32 - d.toBitVec.clz.toNat - 1 = _
    omega
  rw [hone]
  symm
  rw [Nat.log2_eq_iff (fun h0 => h (UInt32.toNat_inj.1 h0))]
  refine ⟨?_, ?_⟩
  · show 2 ^ (31 - d.toBitVec.clz.toNat) ≤ d.toBitVec.toNat
    exact hlow
  · rw [show 31 - d.toBitVec.clz.toNat + 1 = 32 - d.toBitVec.clz.toNat by omega]
    exact hhigh

/-! ## Blocks and places -/

/-- The size of a block. -/
def Config.bsize (c : Config) : ℕ := c.blockSize.toNat

theorem Config.bsize_ge (c : Config) : 128 ≤ c.bsize := UInt32.le_iff_toNat_le.1 c.block_large

theorem Config.bsize_lt (c : Config) : c.bsize < 2 ^ 32 := c.blockSize.toNat_lt

/-- The block of the byte `p`. -/
def Config.indexOf (c : Config) (p : ℕ) : ℕ := index c.bsize 4 p

/-- Its place there. -/
def Config.placeOf (c : Config) (p : ℕ) : ℕ := place c.bsize 4 (c.indexOf p) p

/-- **The blocks have room for their pointers**, all that 32-bit positions lead to. -/
theorem fits (c : Config) : SkipList.Fits c.bsize 4 (2 ^ 26) := by
  intro j hj
  have hones := ones_le hj
  have hb := c.bsize_ge
  omega

theorem indexOf_spec (c : Config) {p : ℕ} (hp : p < 2 ^ 32) :
    start c.bsize 4 (c.indexOf p) ≤ p ∧ p < start c.bsize 4 (c.indexOf p + 1) := by
  have hb := c.bsize_ge
  have hlt : p / (c.bsize - 2 * 4) < 2 ^ 26 := Nat.div_lt_of_lt_mul (by omega)
  exact index_spec (by omega) ((fits c).mono hlt)

theorem indexOf_lt (c : Config) {p : ℕ} (hp : p < 2 ^ 32) : c.indexOf p + 1 < 2 ^ 26 := by
  have hb := c.bsize_ge
  have hle := (indexOf_spec c hp).1
  by_contra hge
  have hmono : start c.bsize 4 (2 ^ 26 - 2 + 1) ≤ start c.bsize 4 (c.indexOf p) :=
    start_mono (by omega)
  rw [start_succ (fits c) (by omega)] at hmono
  have hmul : 120 * (2 ^ 26 - 2 + 1) ≤ (c.bsize - 2 * 4) * (2 ^ 26 - 2 + 1) :=
    Nat.mul_le_mul_right _ (by omega)
  omega

theorem placeOf_eq (c : Config) {p : ℕ} (hp : p < 2 ^ 32) :
    c.placeOf p = head 4 (c.indexOf p) + (p - start c.bsize 4 (c.indexOf p)) :=
  place_eq ((fits c).mono (indexOf_lt c hp).le) (indexOf_spec c hp).1

/-- **`lfs_ctz_index`** is what the layout says. -/
theorem ctzIndex_eq (c : Config) (p : UInt32) :
    (ctzIndex c p).1.toNat = c.indexOf p.toNat ∧ (ctzIndex c p).2.toNat = c.placeOf p.toNat := by
  have hb := c.bsize_ge
  have hspec := indexOf_spec c p.toNat_lt
  have hfits := fits c
  have hdiff : (c.blockSize - 2 * 4).toNat = c.bsize - 2 * 4 :=
    UInt32.toNat_sub_of_le _ _ (UInt32.le_iff_toNat_le.2 (by show 8 ≤ c.bsize; omega))
  have hquot : (p / (c.blockSize - 2 * 4)).toNat = p.toNat / (c.bsize - 2 * 4) := by
    rw [UInt32.toNat_div, hdiff]
  have hlt : p.toNat / (c.bsize - 2 * 4) < 2 ^ 26 :=
    Nat.div_lt_of_lt_mul (by have := p.toNat_lt; omega)
  have hidx : c.indexOf p.toNat = if p.toNat / (c.bsize - 2 * 4) = 0 then 0
      else (p.toNat - 4 * (ones (p.toNat / (c.bsize - 2 * 4) - 1) + 2)) / (c.bsize - 2 * 4) := rfl
  have hplace : c.placeOf p.toNat =
      p.toNat - (c.bsize - 2 * 4) * c.indexOf p.toNat - 4 * ones (c.indexOf p.toNat) := rfl
  unfold ctzIndex
  simp only
  by_cases hzero : p / (c.blockSize - 2 * 4) = 0
  · have hzero' : p.toNat / (c.bsize - 2 * 4) = 0 := by rw [← hquot, hzero]; rfl
    rw [if_pos hzero, hplace, hidx, if_pos hzero']
    exact ⟨rfl, rfl⟩
  · have hpos : p.toNat / (c.bsize - 2 * 4) ≠ 0 := by
      rw [← hquot]
      exact fun h => hzero (UInt32.toNat_inj.1 h)
    have hge : c.bsize - 2 * 4 ≤ p.toNat := by
      by_contra hless
      exact hpos (Nat.div_eq_of_lt (by omega))
    rw [if_neg hzero]
    rw [if_neg hpos] at hidx
    -- the first division and the pointers it stands for
    set q := p.toNat / (c.bsize - 2 * 4) - 1 with hq
    have hqU : (p / (c.blockSize - 2 * 4) - 1).toNat = q := by
      rw [UInt32.toNat_sub_of_le _ _ (UInt32.le_iff_toNat_le.2 (by show 1 ≤ _; omega)), hquot]
      rfl
    have hones : ones q ≤ 26 := ones_le (by omega)
    have hptrs : (4 * (popc (p / (c.blockSize - 2 * 4) - 1) + 2)).toNat = 4 * (ones q + 2) := by
      have hsum : (popc (p / (c.blockSize - 2 * 4) - 1) + 2).toNat = ones q + 2 := by
        rw [toNat_add_of_lt (by rw [toNat_popc, hqU]; show ones q + 2 < _; omega), toNat_popc, hqU]
        rfl
      rw [toNat_mul_of_lt (by rw [hsum]; show 4 * (ones q + 2) < _; omega), hsum]
      rfl
    set i := (p - 4 * (popc (p / (c.blockSize - 2 * 4) - 1) + 2)) / (c.blockSize - 2 * 4) with hi
    have hiU : i.toNat = c.indexOf p.toNat := by
      rw [hi, UInt32.toNat_div, hdiff, UInt32.toNat_sub_of_le _ _
        (UInt32.le_iff_toNat_le.2 (by rw [hptrs]; omega)), hptrs, hidx]
    refine ⟨hiU, ?_⟩
    -- what stands before the byte fits below its position
    have hbelow : (c.bsize - 2 * 4) * c.indexOf p.toNat + 4 * ones (c.indexOf p.toNat) ≤ p.toNat := by
      have hil := indexOf_lt c p.toNat_lt
      generalize c.indexOf p.toNat = k at hspec hil ⊢
      cases k with
      | zero => exact Nat.zero_le _
      | succ k =>
        have hstart := start_succ hfits (by omega : k < 2 ^ 26)
        have hbal := ones_succ k
        omega
    have hmul : ((c.blockSize - 2 * 4) * i).toNat = (c.bsize - 2 * 4) * c.indexOf p.toNat := by
      rw [toNat_mul_of_lt (by rw [hdiff, hiU]; have := p.toNat_lt; omega), hdiff, hiU]
    have hpop : (4 * popc i).toNat = 4 * ones (c.indexOf p.toNat) := by
      have hle : ones (c.indexOf p.toNat) ≤ 26 := ones_le (by have := indexOf_lt c p.toNat_lt; omega)
      rw [toNat_mul_of_lt (by rw [toNat_popc, hiU]; show 4 * _ < _; omega), toNat_popc, hiU]
      rfl
    have hfirst : (p - (c.blockSize - 2 * 4) * i).toNat =
        p.toNat - (c.bsize - 2 * 4) * c.indexOf p.toNat := by
      rw [UInt32.toNat_sub_of_le _ _ (UInt32.le_iff_toNat_le.2 (by rw [hmul]; omega)), hmul]
    rw [hplace, UInt32.toNat_sub_of_le _ _
      (UInt32.le_iff_toNat_le.2 (by rw [hpop, hfirst]; omega)), hfirst, hpop]

/-- A byte is where its block and place say. -/
theorem indexOf_unique (c : Config) {p i : ℕ} (hp : p < 2 ^ 32) (hi : start c.bsize 4 i ≤ p)
    (hi' : p < start c.bsize 4 (i + 1)) : c.indexOf p = i :=
  block_unique (indexOf_spec c hp).1 (indexOf_spec c hp).2 hi hi'

theorem head_le_bsize (c : Config) {i : ℕ} (hi : i < 2 ^ 26) : head 4 i + 12 ≤ c.bsize := by
  have hb := c.bsize_ge
  rcases head_le (fits c) hi.le with h | rfl
  · exact h
  · show 0 + 12 ≤ c.bsize
    omega

theorem placeOf_lt (c : Config) {p : ℕ} (hp : p < 2 ^ 32) : c.placeOf p < c.bsize := by
  have hspec := indexOf_spec c hp
  have hhead := head_le_bsize c (i := c.indexOf p) (by have := indexOf_lt c hp; omega)
  have hstart : start c.bsize 4 (c.indexOf p + 1) =
      start c.bsize 4 (c.indexOf p) + (c.bsize - head 4 (c.indexOf p)) := rfl
  rw [placeOf_eq c hp]
  omega

/-- The first block has no pointers. -/
theorem first_block (c : Config) {p : ℕ} (h : p < c.bsize) :
    c.indexOf p = 0 ∧ c.placeOf p = p := by
  have hbsize := c.bsize_lt
  have hidx := indexOf_unique c (show p < 2 ^ 32 by omega) (i := 0) (Nat.zero_le _)
    (by show p < 0 + (c.bsize - 0); omega)
  have hplace := placeOf_eq c (show p < 2 ^ 32 by omega)
  rw [hidx] at hplace
  refine ⟨hidx, hplace.trans ?_⟩
  show 0 + (p - 0) = p
  omega

/-- **The next byte** is the next one of the block, or the first behind the pointers of the next
block when the block is full. -/
theorem next_place (c : Config) {p : ℕ} (hp : p + 1 < 2 ^ 32) :
    (c.placeOf p + 1 < c.bsize ∧ c.indexOf (p + 1) = c.indexOf p ∧
      c.placeOf (p + 1) = c.placeOf p + 1) ∨
    (c.placeOf p + 1 = c.bsize ∧ c.indexOf (p + 1) = c.indexOf p + 1 ∧
      c.placeOf (p + 1) = head 4 (c.indexOf p + 1)) := by
  have hspec := indexOf_spec c (show p < 2 ^ 32 by omega)
  have hi := indexOf_lt c (show p < 2 ^ 32 by omega)
  have hhead := head_le_bsize c (i := c.indexOf p) (by omega)
  have hstart : start c.bsize 4 (c.indexOf p + 1) =
      start c.bsize 4 (c.indexOf p) + (c.bsize - head 4 (c.indexOf p)) := rfl
  have hplace := placeOf_eq c (show p < 2 ^ 32 by omega)
  have hplace' := placeOf_eq c hp
  rcases Nat.lt_or_ge (p + 1) (start c.bsize 4 (c.indexOf p + 1)) with hlt | hge
  · left
    have hsame := indexOf_unique c hp (hspec.1.trans (Nat.le_succ p)) hlt
    rw [hsame] at hplace'
    exact ⟨by omega, hsame, by omega⟩
  · right
    have hmore : start c.bsize 4 (c.indexOf p + 1) < start c.bsize 4 (c.indexOf p + 1 + 1) :=
      start_lt (fits c) (by decide) hi
    have hnext := indexOf_unique c hp hge (by omega)
    rw [hnext] at hplace'
    exact ⟨by omega, hnext, by omega⟩

/-- Where `lfs_ctz_index` puts the byte `p` and the one after it. -/
structure Laid (c : Config) (p : UInt32) : Prop where
  behind : (ctzIndex c p).1 ≠ 0 → 4 * (ctz (ctzIndex c p).1 + 1) ≤ (ctzIndex c p).2
  inside : (ctzIndex c p).2 < c.blockSize
  next : p + 1 ≠ 0 →
    ((ctzIndex c p).2 + 1 < c.blockSize ∧
      ctzIndex c (p + 1) = ((ctzIndex c p).1, (ctzIndex c p).2 + 1)) ∨
    ((ctzIndex c p).2 + 1 = c.blockSize ∧
      ctzIndex c (p + 1) = ((ctzIndex c p).1 + 1, 4 * (ctz ((ctzIndex c p).1 + 1) + 1)))

theorem rank_lt {i : UInt32} (h : i ≠ 0) : rank i.toNat < 32 := by
  have hi : i.toNat ≠ 0 := fun h0 => h (UInt32.toNat_inj.1 h0)
  have hle : 2 ^ rank i.toNat < 2 ^ 32 := lt_of_le_of_lt (pow_rank_le hi) i.toNat_lt
  exact (Nat.pow_lt_pow_iff_right (by decide)).1 hle

/-- The number of pointers of a block. -/
theorem toNat_skips {i : UInt32} (h : i ≠ 0) : (ctz i + 1).toNat = rank i.toNat + 1 := by
  have hrank := rank_lt h
  rw [toNat_add_of_lt (by rw [toNat_ctz h]; show rank _ + 1 < _; omega), toNat_ctz h]
  rfl

/-- The pointers of a block end where its data starts. -/
theorem toNat_pointers {i : UInt32} (h : i ≠ 0) : (4 * (ctz i + 1)).toNat = head 4 i.toNat := by
  have hi : i.toNat ≠ 0 := fun h0 => h (UInt32.toNat_inj.1 h0)
  have hrank := rank_lt h
  have hsum := toNat_skips h
  unfold head
  rw [if_neg hi, toNat_mul_of_lt (by rw [hsum]; show 4 * (rank _ + 1) < _; omega), hsum]
  rfl

/-- **The bytes of a file in its blocks**: the first is the first of block `0`; every byte is
inside its block and behind the pointers there; the next one follows it, or is the first behind
the pointers of the next block, which it is exactly when the block is full. -/
theorem ctz_index_layout (c : Config) : ctzIndex c 0 = (0, 0) ∧ ∀ p, Laid c p := by
  constructor
  · have hzero : (0 : UInt32) / (c.blockSize - 2 * 4) = 0 := UInt32.zero_div
    exact if_pos hzero
  · intro p
    obtain ⟨hidx, hplace⟩ := ctzIndex_eq c p
    have hp := p.toNat_lt
    have hlt := placeOf_lt c hp
    have hi := indexOf_lt c hp
    refine ⟨?_, ?_, ?_⟩
    · intro hne
      rw [UInt32.le_iff_toNat_le, toNat_pointers hne, hidx, hplace, placeOf_eq c hp]
      exact Nat.le_add_right ..
    · rw [UInt32.lt_iff_toNat_lt, hplace]
      exact hlt
    · intro hne
      have hsum : (p + 1).toNat = p.toNat + 1 := by
        have hmod : (p + 1).toNat = (p.toNat + 1) % 2 ^ 32 := UInt32.toNat_add p 1
        by_contra hover
        have hwrap : (p + 1).toNat = 0 := by omega
        exact hne (UInt32.toNat_inj.1 hwrap)
      have hp' : p.toNat + 1 < 2 ^ 32 := by rw [← hsum]; exact UInt32.toNat_lt _
      obtain ⟨hidx', hplace'⟩ := ctzIndex_eq c (p + 1)
      rw [hsum] at hidx' hplace'
      have hoff : ((ctzIndex c p).2 + 1).toNat = c.placeOf p.toNat + 1 := by
        have hb := c.bsize_lt
        rw [toNat_add_of_lt (by rw [hplace]; show _ + 1 < _; omega), hplace]
        rfl
      have hnext : ((ctzIndex c p).1 + 1).toNat = c.indexOf p.toNat + 1 := by
        rw [toNat_add_of_lt (by rw [hidx]; show _ + 1 < _; omega), hidx]
        rfl
      have hnz : (ctzIndex c p).1 + 1 ≠ 0 := by
        intro h0
        rw [h0] at hnext
        exact absurd hnext (by show 0 ≠ _; omega)
      rcases next_place c hp' with ⟨hmore, hsame, hstep⟩ | ⟨hfull, hup, hfirst⟩
      · left
        refine ⟨by rw [UInt32.lt_iff_toNat_lt, hoff]; exact hmore, Prod.ext ?_ ?_⟩
        · exact UInt32.toNat_inj.1 (by rw [hidx', hsame, hidx])
        · exact UInt32.toNat_inj.1 (by rw [hplace', hstep, hoff])
      · right
        refine ⟨UInt32.toNat_inj.1 (by rw [hoff]; exact hfull), Prod.ext ?_ ?_⟩
        · exact UInt32.toNat_inj.1 (by rw [hidx', hup, hnext])
        · exact UInt32.toNat_inj.1 (by rw [hplace', hfirst, toNat_pointers hnz, hnext])

end Boatdash.Lfs
