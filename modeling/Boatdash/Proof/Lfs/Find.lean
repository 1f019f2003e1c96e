import Boatdash.Proof.Lfs.Index
import Boatdash.Proof.Lfs.Volume

/-!
# Finding and visiting the blocks of a file

`Chain`: the blocks of a file, as its head and its size stand for them. `wp_ctzFind`:
**`lfs_ctz_find` comes to the block of any byte of the file in at most `2 log n + 1` reads, `n` the
number of the last block**, and `wp_ctzTraverse`: **`lfs_ctz_traverse` visits each block of the file
once, and no other**. Either fails only with the error of a read, and changes nothing.
-/

namespace Boatdash.Lfs

open Prog Ruler SkipList

variable {c : Config} {v v' : Volume c} {mem : UInt32 → ℕ → UInt8} {blk : List UInt32}
  {top size b : UInt32} {i n : ℕ} {w : Prop}

/-- Pointer `k` of a block. -/
def ptrAt (mem : UInt32 → ℕ → UInt8) (b : UInt32) (k : ℕ) : UInt32 := wordAt mem b (4 * k)

/-- The number of blocks of a file of `n` bytes. -/
def Config.blocksOf (c : Config) : ℕ → ℕ
  | 0 => 0
  | n + 1 => c.indexOf n + 1

/-- The blocks `blk` are those of the file with the last block `top` and `size` bytes. -/
structure Chain (c : Config) (mem : UInt32 → ℕ → UInt8) (blk : List UInt32) (top size : UInt32) :
    Prop where
  linked : Linked (ptrAt mem) blk
  device : ∀ x ∈ blk, x < c.blockCount
  length : blk.length = c.blocksOf size.toNat
  last : size ≠ 0 → blk[blk.length - 1]? = some top

/-- The index of the last block. -/
theorem toNat_last (c : Config) (h : size ≠ 0) :
    (ctzIndex c (size - 1)).1.toNat + 1 = c.blocksOf size.toNat := by
  have hpos : size.toNat ≠ 0 := fun h0 => h (UInt32.toNat_inj.1 h0)
  have hsub : (size - 1).toNat = size.toNat - 1 :=
    UInt32.toNat_sub_of_le _ _ (UInt32.le_iff_toNat_le.2 (by show 1 ≤ size.toNat; omega))
  rw [(ctzIndex_eq c _).1, hsub]
  obtain ⟨n, hn⟩ := Nat.exists_eq_succ_of_ne_zero hpos
  rw [hn]; rfl

theorem blocksOf_lt (c : Config) {n : ℕ} (hn : n < 2 ^ 32) : c.blocksOf n < 2 ^ 26 := by
  cases n with
  | zero => show 0 < 2 ^ 26; decide
  | succ n => exact indexOf_lt c (Nat.lt_of_succ_lt hn)

theorem blocksOf_mono (c : Config) {m n : ℕ} (h : m ≤ n) (hn : n < 2 ^ 32) :
    c.blocksOf m ≤ c.blocksOf n := by
  cases m with
  | zero => exact Nat.zero_le _
  | succ m =>
    cases n with
    | zero => omega
    | succ n =>
      have hm := (indexOf_spec c (show m < 2 ^ 32 by omega)).1
      have hn' := (indexOf_spec c (show n < 2 ^ 32 by omega)).2
      show c.indexOf m + 1 ≤ c.indexOf n + 1
      by_contra hlt
      have hmono : start c.bsize 4 (c.indexOf n + 1) ≤ start c.bsize 4 (c.indexOf m) :=
        start_mono (by omega)
      omega

/-- A byte of the file is in one of its blocks. -/
theorem indexOf_lt_blocksOf (c : Config) {p n : ℕ} (h : p < n) (hn : n < 2 ^ 32) :
    c.indexOf p < c.blocksOf n := blocksOf_mono c (m := p + 1) h hn

/-- The pointer that the loop of `lfs_ctz_find` follows. -/
theorem toNat_skip {current target : UInt32} (h : target < current) :
    (min (npw2 (current - target + 1) - 1) (ctz current)).toNat =
      hop target.toNat current.toNat := by
  have hlt := UInt32.lt_iff_toNat_lt.1 h
  have hsub : (current - target).toNat = current.toNat - target.toNat :=
    UInt32.toNat_sub_of_le _ _ (UInt32.le_iff_toNat_le.2 hlt.le)
  have hne : current - target ≠ 0 := by
    intro h0
    rw [h0] at hsub
    exact absurd hsub (by show 0 ≠ _; omega)
  have hcur : current ≠ 0 := by
    rintro rfl
    exact absurd hlt (Nat.not_lt_zero _)
  rw [UInt32.toNat_min, toNat_npw2 hne, toNat_ctz hcur, hsub]
  rfl

/-- **The loop.** -/
theorem wp_ctzFindLoop (target : UInt32) {m : ℕ} (k : ℕ) (current head : UInt32) (v : Volume c)
    (hl : Linked (ptrAt v.mem) blk) (hdev : ∀ x ∈ blk, x < c.blockCount)
    (hlen : blk.length < 2 ^ 26) (hk : current.toNat ≤ k) (ht : target ≤ current)
    (hm : current.toNat.log2 ≤ m) (hhead : blk[current.toNat]? = some head) :
    wp w (ctzFindLoop target k current head)
      (fun b v' => blk[target.toNat]? = some b ∧
        ∃ n ≤ cost m target.toNat current.toNat, v' = v.waited n)
      (fun e v' => v'.Gave .read e ∧ ∃ n, v' = v.waited n) v := by
  have ht' := UInt32.le_iff_toNat_le.1 ht
  induction k generalizing current head v with
  | zero =>
    have heq : target.toNat = current.toNat := by omega
    refine wp_pure ⟨?_, 0, Nat.zero_le _, waited_zero v⟩
    rw [heq]
    exact hhead
  | succ k ih =>
    unfold ctzFindLoop
    by_cases hdone : current ≤ target
    · have heq : target.toNat = current.toNat := by
        have := UInt32.le_iff_toNat_le.1 hdone
        omega
      rw [if_pos hdone]
      refine wp_pure ⟨?_, 0, Nat.zero_le _, waited_zero v⟩
      rw [heq]
      exact hhead
    · rw [if_neg hdone]
      have hlt : target < current := UInt32.not_le.1 hdone
      have hlt' := UInt32.lt_iff_toNat_lt.1 hlt
      have hskip := toNat_skip hlt
      set skip := min (npw2 (current - target + 1) - 1) (ctz current) with hs
      have hcur : current.toNat ≠ 0 := by omega
      have hin : current.toNat < blk.length := (List.getElem?_eq_some_iff.1 hhead).1
      have hrank : hop target.toNat current.toNat ≤ rank current.toNat := Nat.min_le_right ..
      have hfit := hop_le hlt'
      have hsmall : hop target.toNat current.toNat < 32 := by
        have hpow : 2 ^ hop target.toNat current.toNat < 2 ^ 32 :=
          lt_of_le_of_lt hfit (by have := current.toNat_lt; omega)
        exact (Nat.pow_lt_pow_iff_right (by decide)).1 hpow
      -- the pointer is among those of the block
      have hoff : (4 * skip).toNat = 4 * hop target.toNat current.toNat := by
        rw [toNat_mul_of_lt (by rw [hskip]; show 4 * _ < _; omega), hskip]
        rfl
      have hroom : (4 * skip).toNat + 4 ≤ c.blockSize.toNat := by
        have hbound := head_le_bsize c (i := current.toNat) (by omega)
        unfold SkipList.head at hbound
        rw [if_neg hcur] at hbound
        rw [hoff]
        show _ ≤ c.bsize
        omega
      have hnext : blk[current.toNat - 2 ^ hop target.toNat current.toNat]? =
          some (wordAt v.mem head (4 * skip).toNat) := by
        rw [hoff]
        exact hl _ _ _ hhead hcur hrank
      have hpow : (1 <<< skip).toNat = 2 ^ hop target.toNat current.toNat := by
        rw [UInt32.toNat_shiftLeft, hskip, Nat.mod_eq_of_lt hsmall, Nat.shiftLeft_eq]
        show 1 * 2 ^ _ % 2 ^ 32 = _
        rw [Nat.one_mul]
        exact Nat.mod_eq_of_lt (Nat.pow_lt_pow_right (by decide) hsmall)
      have hcurrent : (current - 1 <<< skip).toNat =
          current.toNat - 2 ^ hop target.toNat current.toNat := by
        rw [UInt32.toNat_sub_of_le _ _ (UInt32.le_iff_toNat_le.2 (by rw [hpow]; omega)), hpow]
      have hpos : 0 < 2 ^ hop target.toNat current.toNat := Nat.two_pow_pos _
      have hcost := cost_hop hlt' hm
      simp only
      apply wp_bind
      apply wp_bdRead32 hroom (hdev _ (List.mem_of_getElem? hhead))
      · have hrest := ih (current - 1 <<< skip) (wordAt v.mem head (4 * skip).toNat) (v.waited 1) hl
          (by rw [hcurrent]; omega) (UInt32.le_iff_toNat_le.2 (by rw [hcurrent]; omega))
          (by rw [hcurrent]; exact (log2_le_log2 (Nat.sub_le ..)).trans hm)
          (by rw [hcurrent]; exact hnext) (by rw [hcurrent]; omega)
        refine wp_mono hrest ?_ ?_
        · rintro b v' ⟨hb, n, hn, rfl⟩
          rw [hcurrent] at hn
          exact ⟨hb, 1 + n, by omega, by rw [waited_waited]⟩
        · rintro e v' ⟨he, n, rfl⟩
          exact ⟨he, 1 + n, by rw [waited_waited]⟩
      · exact fun e he => ⟨he, 1, rfl⟩

/-- **`lfs_ctz_find`**: the block of a byte, in a logarithmic number of reads. -/
theorem wp_ctzFind (h : Chain c v.mem blk top size) {pos : UInt32} (hpos : pos < size) :
    wp w (ctzFind top size pos)
      (fun r v' => blk[c.indexOf pos.toNat]? = some r.1 ∧ r.2.toNat = c.placeOf pos.toNat ∧
        ∃ n ≤ 2 * (blk.length - 1).log2 + 1, v' = v.waited n)
      (fun e v' => v'.Gave .read e ∧ ∃ n, v' = v.waited n) v := by
  have hlt := UInt32.lt_iff_toNat_lt.1 hpos
  have hsize : size ≠ 0 := by
    rintro rfl
    exact absurd hlt (Nat.not_lt_zero _)
  have hlast := toNat_last c hsize
  have hlen := h.length
  have hin := indexOf_lt_blocksOf c hlt size.toNat_lt
  obtain ⟨htarget, hplace⟩ := ctzIndex_eq c pos
  unfold ctzFind
  rw [if_neg hsize]
  simp only
  have hloop := wp_ctzFindLoop (w := w) (ctzIndex c pos).1 _ (ctzIndex c (size - 1)).1 top v
    h.linked h.device (by rw [hlen]; exact blocksOf_lt c size.toNat_lt) (Nat.le_refl _)
    (UInt32.le_iff_toNat_le.2 (by rw [htarget]; omega)) (Nat.le_refl _)
    (by rw [show (ctzIndex c (size - 1)).1.toNat = blk.length - 1 by omega]; exact h.last hsize)
  refine wp_then hloop ?_ fun e v' he => he
  rintro b v' ⟨hb, n, hn, rfl⟩
  rw [htarget] at hb hn
  refine wp_pure ⟨hb, hplace, n, hn.trans ?_, rfl⟩
  rw [show blk.length - 1 = (ctzIndex c (size - 1)).1.toNat by omega]
  exact cost_le (Nat.le_refl _)

/-! ## Visiting -/

theorem take_bytesAt (b : UInt32) (off m n : ℕ) :
    (bytesAt mem b off (m + n)).take m = bytesAt mem b off m := by
  unfold bytesAt
  rw [← List.map_take, List.take_range, Nat.min_eq_left (Nat.le_add_right ..)]

theorem drop_bytesAt (b : UInt32) (off m n : ℕ) :
    (bytesAt mem b off (m + n)).drop m = bytesAt mem b (off + m) n := by
  unfold bytesAt
  rw [List.range_add, List.map_append, List.drop_left' (by simp), List.map_map]
  apply List.map_congr_left
  intro i _
  show mem b (off + (m + i)) = mem b (off + m + i)
  rw [Nat.add_assoc]

/-- The number of pointers read from a block: as many as lead to blocks right before it. -/
theorem toNat_count (i : UInt32) : (2 - (i &&& 1)).toNat = 2 - i.toNat % 2 := by
  have hand : (i &&& 1).toNat = i.toNat % 2 := by
    rw [UInt32.toNat_and]
    exact Nat.and_one_is_mod _
  rw [UInt32.toNat_sub_of_le _ _ (UInt32.le_iff_toNat_le.2 (by rw [hand]; show _ ≤ 2; omega)), hand]
  rfl

theorem take_succ_reverse (h : blk[n]? = some b) :
    (blk.take (n + 1)).reverse = b :: (blk.take n).reverse := by
  rw [List.take_add_one, h]
  simp

/-- The first block alone. -/
theorem first_reverse (h : blk[n]? = some b) (hn : n = 0) : [b] = (blk.take (n + 1)).reverse := by
  rw [take_succ_reverse h, hn]
  rfl

/-- **The loop.** -/
theorem wp_ctzTraverseLoop (k : ℕ) (index head : UInt32) (v : Volume c)
    (hl : Linked (ptrAt v.mem) blk) (hdev : ∀ x ∈ blk, x < c.blockCount)
    (hk : index.toNat ≤ k) (hhead : blk[index.toNat]? = some head) :
    wp w (ctzTraverseLoop k index head)
      (fun l v' => l = (blk.take (index.toNat + 1)).reverse ∧
        ∃ n ≤ (index.toNat + 1) / 2, v' = v.waited n)
      (fun e v' => v'.Gave .read e ∧ ∃ n, v' = v.waited n) v := by
  induction k generalizing index head v with
  | zero => exact wp_pure ⟨first_reverse hhead (by omega), 0, Nat.zero_le _, waited_zero v⟩
  | succ k ih =>
    unfold ctzTraverseLoop
    by_cases hdone : index = 0
    · rw [if_pos hdone]
      exact wp_pure ⟨first_reverse hhead (by rw [hdone]; rfl), 0, Nat.zero_le _, waited_zero v⟩
    · rw [if_neg hdone]
      have hpos : index.toNat ≠ 0 := fun h0 => hdone (UInt32.toNat_inj.1 h0)
      have hin : index.toNat < blk.length := (List.getElem?_eq_some_iff.1 hhead).1
      have hcount := toNat_count index
      set count := 2 - (index &&& 1) with hc
      have hone : count = 1 ↔ index.toNat % 2 = 1 := by
        rw [← UInt32.toNat_inj, hcount]
        show 2 - index.toNat % 2 = 1 ↔ _
        omega
      have hsub : (index - count).toNat = index.toNat - count.toNat :=
        UInt32.toNat_sub_of_le _ _ (UInt32.le_iff_toNat_le.2 (by omega))
      have hroom : (0 : UInt32).toNat + 4 * count.toNat ≤ c.blockSize.toNat := by
        have hb := c.bsize_ge
        show 0 + 4 * count.toNat ≤ c.bsize
        omega
      have hfirst : blk[index.toNat - 1]? = some (wordAt v.mem head 0) :=
        hl _ _ 0 hhead hpos (Nat.zero_le _)
      simp only
      apply wp_bind
      apply wp_bdRead hroom (hdev _ (List.mem_of_getElem? hhead))
      · rcases Nat.mod_two_eq_zero_or_one index.toNat with heven | hodd
        · -- two blocks at once
          have htwo : count.toNat = 2 := by omega
          have hsecond : blk[index.toNat - 2]? = some (wordAt v.mem head 4) :=
            hl _ _ 1 hhead hpos (rank_pos_of_even hpos heven)
          have hdata0 : fromLe32 ((bytesAt v.mem head (0 : UInt32).toNat (4 * 2)).take 4) =
              wordAt v.mem head 0 := congrArg fromLe32 (take_bytesAt head 0 4 4)
          have hdata1 : fromLe32 ((bytesAt v.mem head (0 : UInt32).toNat (4 * 2)).drop 4) =
              wordAt v.mem head 4 := congrArg fromLe32 (drop_bytesAt head 0 4 4)
          have hidx : (index - count).toNat = index.toNat - 2 := by rw [hsub, htwo]
          rw [if_neg (by rw [hone]; omega), htwo, hdata0, hdata1]
          have hhead' : blk[(index - count).toNat]? = some (wordAt v.mem head 4) := by
            rw [hidx]; exact hsecond
          refine wp_then (ih (index - count) (wordAt v.mem head 4) (v.waited 1) hl (by rw [hidx]; omega)
            hhead') ?_ ?_
          · rintro rest v' ⟨rfl, n, hn, rfl⟩
            rw [hidx] at hn
            refine wp_pure ⟨?_, 1 + n, by omega, by rw [waited_waited]⟩
            rw [hidx, take_succ_reverse hhead, show index.toNat = index.toNat - 2 + 1 + 1 by omega]
            have hmid : blk[index.toNat - 2 + 1]? = some (wordAt v.mem head 0) := by
              rw [show index.toNat - 2 + 1 = index.toNat - 1 by omega]; exact hfirst
            rw [take_succ_reverse hmid]
            rfl
          · rintro e v' ⟨he, n, rfl⟩
            exact ⟨he, 1 + n, by rw [waited_waited]⟩
        · have hcount1 : count.toNat = 1 := by omega
          have hdata0 : fromLe32 ((bytesAt v.mem head (0 : UInt32).toNat (4 * 1)).take 4) =
              wordAt v.mem head 0 := congrArg fromLe32 (take_bytesAt head 0 4 0)
          have hidx : (index - count).toNat = index.toNat - 1 := by rw [hsub, hcount1]
          rw [if_pos (hone.2 hodd), hcount1, hdata0]
          have hhead' : blk[(index - count).toNat]? = some (wordAt v.mem head 0) := by
            rw [hidx]; exact hfirst
          refine wp_then (ih (index - count) (wordAt v.mem head 0) (v.waited 1) hl (by rw [hidx]; omega)
            hhead') ?_ ?_
          · rintro rest v' ⟨rfl, n, hn, rfl⟩
            rw [hidx] at hn
            refine wp_pure ⟨?_, 1 + n, by omega, by rw [waited_waited]⟩
            rw [hidx, take_succ_reverse hhead, show index.toNat - 1 + 1 = index.toNat by omega]
          · rintro e v' ⟨he, n, rfl⟩
            exact ⟨he, 1 + n, by rw [waited_waited]⟩
      · exact fun e he => ⟨he, 1, rfl⟩

/-- **`lfs_ctz_traverse`**: every block of the file, the last one first. -/
theorem wp_ctzTraverse (h : Chain c v.mem blk top size) :
    wp w (ctzTraverse top size)
      (fun l v' => l = blk.reverse ∧ ∃ n ≤ blk.length / 2, v' = v.waited n)
      (fun e v' => v'.Gave .read e ∧ ∃ n, v' = v.waited n) v := by
  have hlen := h.length
  unfold ctzTraverse
  by_cases hsize : size = 0
  · rw [if_pos hsize]
    have hnil : blk = [] := List.eq_nil_of_length_eq_zero (by rw [hlen, hsize]; rfl)
    rw [hnil]
    exact wp_pure ⟨rfl, 0, Nat.zero_le _, waited_zero v⟩
  · rw [if_neg hsize]
    have hlast := toNat_last c hsize
    have hloop := wp_ctzTraverseLoop (w := w) _ (ctzIndex c (size - 1)).1 top v h.linked h.device
      (Nat.le_refl _)
      (by rw [show (ctzIndex c (size - 1)).1.toNat = blk.length - 1 by omega]; exact h.last hsize)
    refine wp_mono hloop ?_ fun e v' he => he
    rintro l v' ⟨rfl, n, hn, rfl⟩
    rw [hlast, ← hlen, List.take_length]
    refine ⟨rfl, n, ?_, rfl⟩
    rw [hlast, ← hlen] at hn
    exact hn

end Boatdash.Lfs
