import Boatdash.Proof.Lfs.Extend

/-!
# Looking a byte up

What the skip list of a file is for, on any file whose blocks are linked as they should be.

* `ctz_lookup`: **`lfs_ctz_find` and one read get any byte of the file**, in a number of reads that
  is logarithmic in the number of its blocks.
* `ctz_visits`: **`lfs_ctz_traverse` visits the blocks of the file**, each at its place from the last
  one on and no other, in one read for two of them. `lfs_ctz_find` finds the same blocks.

Neither writes anything, and neither fails but with the error of the last read that was made.
-/

namespace Boatdash.Lfs

open Prog Ruler SkipList

variable {c : Config} {v : Volume c} {blk : List UInt32} {top size pos : UInt32}
  {bytes : List UInt8} {a : UInt8}

/-! ## A file of two blocks -/

/-- The limits of a volume of ten blocks. -/
def tenLimits : Limits tenBlocks := ⟨0x7fffffff, 16, by decide, by decide, by decide⟩

/-- What there is in the first of two blocks: a seven. -/
def firstByte (i : ℕ) : UInt8 := if i = 3 then 7 else 0

/-- Ten blocks of which the second holds a nine behind its pointer to the first. -/
def twoVolume : Volume tenBlocks where
  mem := fun b i => if b = 1 then if i = 4 then 9 else 0 else firstByte i
  env := { result := fun _ _ => 0, junk := fun _ _ => 0, cached := fun _ _ => true
           steps := fun _ => [] }
  lim := tenLimits
  la := .drop tenBlocks ⟨⟨0, 0, 0, 0, []⟩, ∅⟩

theorem blocksOf_succ (c : Config) (n : ℕ) : c.blocksOf (n + 1) = c.indexOf n + 1 := rfl

theorem two_index : tenBlocks.indexOf 128 = 1 ∧ tenBlocks.placeOf 128 = 4 := by
  obtain ⟨hidx, hplace⟩ := ctzIndex_eq tenBlocks 128
  exact ⟨hidx.symm.trans (by decide), hplace.symm.trans (by decide)⟩

theorem two_chain : Chain tenBlocks twoVolume.mem [0, 1] 1 129 where
  linked := by
    have hone : Linked (ptrAt twoVolume.mem) ([] ++ [(0 : UInt32)]) :=
      linked_snoc linked_nil fun h0 => absurd rfl h0
    refine linked_snoc hone fun _ k hk => ?_
    have hrank : rank 1 = 0 := rank_eq (by decide) (by decide)
    obtain rfl : k = 0 := Nat.le_zero.1 (hrank ▸ hk)
    rfl
  device := by
    intro x hx
    rcases List.mem_pair.1 hx with rfl | rfl
    · decide
    · decide
  length := by
    have hsize : (129 : UInt32).toNat = 128 + 1 := by decide
    rw [hsize, blocksOf_succ, two_index.1]
    rfl
  last := fun _ => rfl

/-- The bytes of the file. -/
def twoBytes : List UInt8 := (List.range 128).map firstByte ++ [9]

theorem two_holds : Holds tenBlocks twoVolume.mem [0, 1] twoBytes := by
  intro p a ha
  unfold twoBytes at ha
  rw [List.getElem?_append, List.length_map, List.length_range] at ha
  split at ha
  · next hp =>
    obtain ⟨hidx, hplace⟩ := first_block tenBlocks (p := p) hp
    rw [List.getElem?_map, List.getElem?_range hp] at ha
    refine ⟨0, by rw [hidx]; rfl, ?_⟩
    rw [hplace]
    exact Option.some.inj ha
  · next hp =>
    obtain ⟨hlt, rfl⟩ := List.getElem?_eq_some_iff.1 ha
    obtain rfl : p = 128 := by
      have hlt' : p - 128 < 1 := hlt
      omega
    rw [two_index.1, two_index.2]
    exact ⟨1, rfl, rfl⟩

/-- **Any byte of the file is found.** -/
theorem ctz_lookup (h : Chain c v.mem blk top size) (hd : Holds c v.mem blk bytes)
    (hpos : pos < size) (ha : bytes[pos.toNat]? = some a) :
    wp False
      (do
        let (block, off) ← ctzFind top size pos
        bdRead block off 1)
      (fun data v' => data = [a] ∧ ∃ n ≤ 2 * (blk.length - 1).log2 + 2, v' = v.waited n)
      (fun e v' => v'.Gave .read e ∧ ∃ n, v' = v.waited n) v := by
  refine wp_then (wp_ctzFind h hpos) ?_ fun e v' he => he
  rintro ⟨block, off⟩ v' ⟨hblock, hoff, n, hn, rfl⟩
  obtain ⟨b, hb, hbyte⟩ := hd pos.toNat a ha
  obtain rfl : b = block := Option.some.inj (hb.symm.trans hblock)
  have hin := placeOf_lt c pos.toNat_lt
  have hfit : off.toNat + 1 ≤ c.blockSize.toNat := by
    rw [hoff]
    exact hin
  refine wp_bdRead hfit (h.device b (List.mem_of_getElem? hblock)) ?_ fun e he => ?_
  · refine ⟨?_, n + 1, by omega, waited_waited v n 1⟩
    show [v.mem b (off.toNat + 0)] = [a]
    rw [hoff, Nat.add_zero, hbyte]
  · exact ⟨he, n + 1, waited_waited v n 1⟩

theorem two_byte : twoBytes[(3 : UInt32).toNat]? = some 7 := by
  unfold twoBytes
  have hlt : (3 : UInt32).toNat < ((List.range 128).map firstByte).length := by
    rw [List.length_map, List.length_range]
    decide
  rw [List.getElem?_append_left hlt, List.getElem?_map, List.getElem?_range (by decide)]
  rfl

set_option maxRecDepth 2000 in
/-- A byte of the first block, by the pointer of the second. -/
theorem ctz_lookup_two :
    wp False
      (do
        let (block, off) ← ctzFind 1 129 3
        bdRead block off 1)
      (fun data v' => data = [7] ∧ ∃ n ≤ 2, v' = twoVolume.waited n)
      (fun e v' => v'.Gave .read e ∧ ∃ n, v' = twoVolume.waited n) twoVolume :=
  ctz_lookup two_chain two_holds (by decide) two_byte

/-- **Every block of the file is visited**, and any byte `pos` is in the one at its place. -/
theorem ctz_visits (h : Chain c v.mem blk top size) :
    wp False (ctzTraverse top size)
      (fun visited v' => visited = blk.reverse ∧ (∃ n ≤ blk.length / 2, v' = v.waited n) ∧
        ∀ pos < size, wp False (ctzFind top size pos)
          (fun r v'' => visited.reverse[c.indexOf pos.toNat]? = some r.1 ∧
            ∃ n ≤ 2 * (blk.length - 1).log2 + 1, v'' = v'.waited n)
          (fun e v'' => v''.Gave .read e ∧ ∃ n, v'' = v'.waited n) v')
      (fun e v' => v'.Gave .read e ∧ ∃ n, v' = v.waited n) v := by
  refine wp_mono (wp_ctzTraverse h) ?_ fun e v' he => he
  rintro visited v' ⟨rfl, m, hm, rfl⟩
  refine ⟨rfl, ⟨m, hm, rfl⟩, fun pos hpos => ?_⟩
  have hfind := wp_ctzFind (v := v.waited m) (w := False) h hpos
  refine wp_mono hfind ?_ fun e v' he => he
  rintro ⟨block, _⟩ v' ⟨hblock, -, hn⟩
  rw [List.reverse_reverse]
  exact ⟨hblock, hn⟩

theorem ctz_visits_two :
    wp False (ctzTraverse 1 129)
      (fun visited v' => visited = [1, 0] ∧ (∃ n ≤ 1, v' = twoVolume.waited n) ∧
        ∀ pos < 129, wp False (ctzFind 1 129 pos)
          (fun r v'' => visited.reverse[tenBlocks.indexOf pos.toNat]? = some r.1 ∧
            ∃ n ≤ 1, v'' = v'.waited n)
          (fun e v'' => v''.Gave .read e ∧ ∃ n, v'' = v'.waited n) v')
      (fun e v' => v'.Gave .read e ∧ ∃ n, v' = twoVolume.waited n) twoVolume :=
  ctz_visits two_chain

end Boatdash.Lfs
