import Mathlib.Data.Nat.ModEq
import Boatdash.Spec.Lfs.Alloc

/-!
# The allocator hands out free blocks, and all of them

The window holds the bits of blocks counted from `start`, wrapping at the end of the device;
`ckpoint` blocks from `next` on hold none handed out since the last checkpoint (`Sound`). So
`alloc_fresh`: **over any run, `lfs_alloc` ends, and a block it hands out is neither in use nor
handed out since the last checkpoint.**

The blocks behind the ones `ckpoint` counts are all taken as long as no commit frees one (`Full`):
`alloc_full_iff`: **in such a run `lfs_alloc` reports `LFS_ERR_NOSPC` exactly when no block is
free.**
-/

namespace Boatdash.Lfs

variable {c : Config} {la la' : Lookahead} {tr : Traversal}

/-! ## Places in the window -/

/-- The block `j` places from the start of the window. -/
def Lookahead.place (c : Config) (la : Lookahead) (j : ℕ) : UInt32 :=
  .ofNat ((la.start.toNat + j) % c.count)

/-- What is true of a lookahead at any time: no step of it overflows. -/
structure Valid (c : Config) (la : Lookahead) : Prop where
  start : la.start.toNat < c.count
  next : la.next.toNat ≤ la.size.toNat
  room : la.size.toNat ≤ la.next.toNat + la.ckpoint.toNat
  size : la.size.toNat ≤ c.count
  ckpoint : la.ckpoint.toNat ≤ c.count

theorem toNat_place (j : ℕ) : (la.place c j).toNat = (la.start.toNat + j) % c.count := by
  have hlt := Nat.mod_lt (la.start.toNat + j) c.count_gt
  have hle := c.count_le
  exact UInt32.toNat_ofNat_of_lt' (lt_of_lt_of_le hlt (by unfold UInt32.size; omega))

theorem place_lt (j : ℕ) : (la.place c j).toNat < c.count := by
  rw [toNat_place]; exact Nat.mod_lt _ c.count_gt

theorem place_wrap (j : ℕ) : la.place c (j + c.count) = la.place c j := by
  unfold Lookahead.place
  rw [← Nat.add_assoc, Nat.add_mod_right]

/-- The block at `next` is that of its place. -/
theorem block_eq (h : Valid c la) : la.block c = la.place c la.next.toNat := by
  have hle := c.count_le
  have hsum : (la.start + la.next).toNat = la.start.toNat + la.next.toNat :=
    toNat_add_of_lt (by have := h.start; have := h.next; have := h.size; omega)
  rw [← UInt32.toNat_inj, toNat_place]
  unfold Lookahead.block
  rw [UInt32.toNat_mod, hsum]; rfl

/-- The distance of a block, without the overflow the code goes through. -/
theorem toNat_off (hstart : la.start.toNat < c.count) {b : UInt32} (hb : b.toNat < c.count) :
    (la.off c b).toNat = (b.toNat + c.count - la.start.toNat) % c.count := by
  have hle := c.count_le
  unfold Lookahead.off
  rw [UInt32.toNat_mod, UInt32.toNat_add, UInt32.toNat_sub]
  show ((2 ^ 32 - la.start.toNat + b.toNat) % 2 ^ 32 + c.count) % 2 ^ 32 % c.count = _
  congr 1
  omega

/-- The distance of the block at a place is the place. -/
theorem off_place (hstart : la.start.toNat < c.count) {j : ℕ} (hj : j < c.count) :
    (la.off c (la.place c j)).toNat = j := by
  rw [toNat_off hstart (place_lt j), toNat_place]
  rcases Nat.lt_or_ge (la.start.toNat + j) c.count with h | h
  · rw [Nat.mod_eq_of_lt h, show la.start.toNat + j + c.count - la.start.toNat = j + c.count by omega,
      Nat.add_mod_right, Nat.mod_eq_of_lt hj]
  · rw [Nat.mod_eq_sub_mod h, Nat.mod_eq_of_lt (by omega : la.start.toNat + j - c.count < c.count),
      show la.start.toNat + j - c.count + c.count - la.start.toNat = j by omega, Nat.mod_eq_of_lt hj]

/-- A block is at its distance. -/
theorem place_off (hstart : la.start.toNat < c.count) {b : UInt32} (hb : b.toNat < c.count) :
    la.place c (la.off c b).toNat = b := by
  rw [← UInt32.toNat_inj, toNat_place, toNat_off hstart hb, Nat.add_mod_mod,
    show la.start.toNat + (b.toNat + c.count - la.start.toNat) = b.toNat + c.count by omega,
    Nat.add_mod_right, Nat.mod_eq_of_lt hb]

/-! ## A scan -/

/-- The lookahead a traversal has filled. -/
def Lookahead.scanned (c : Config) (tr : Traversal) (la : Lookahead) : Lookahead :=
  tr.visited.foldl (allocLookahead c) (la.slide c)

/-- The bits a traversal sets in a buffer. -/
def Lookahead.marks (c : Config) (la : Lookahead) (l : List UInt32) : List UInt8 :=
  l.foldl (fun b x => if la.off c x < la.size then Bitmap.mark b (la.off c x).toNat else b)
    la.buffer

theorem foldl_lookahead (l : List UInt32) (la : Lookahead) :
    l.foldl (allocLookahead c) la = { la with buffer := la.marks c l } := by
  induction l generalizing la with
  | nil => rfl
  | cons x l ih =>
    rw [List.foldl_cons, ih]
    unfold allocLookahead
    by_cases h : la.off c x < la.size
    · rw [if_pos h]
      unfold Lookahead.marks
      rw [List.foldl_cons, if_pos h]; rfl
    · rw [if_neg h]
      unfold Lookahead.marks
      rw [List.foldl_cons, if_neg h]

theorem scanned_eq (c : Config) (tr : Traversal) (la : Lookahead) :
    la.scanned c tr = { la.slide c with buffer := (la.slide c).marks c tr.visited } :=
  foldl_lookahead _ _

theorem slide_size (c : Config) (la : Lookahead) :
    (la.slide c).size.toNat = min (8 * c.lookaheadSize.toNat) la.ckpoint.toNat := by
  have hsmall : c.lookaheadSize.toNat < 0x20000000 := UInt32.lt_iff_toNat_lt.1 c.lookahead_small
  have height : (8 * c.lookaheadSize).toNat = 8 * c.lookaheadSize.toNat :=
    toNat_mul_of_lt (by show 8 * c.lookaheadSize.toNat < _; omega)
  unfold Lookahead.slide
  rw [UInt32.toNat_min, height]

/-- The places after a scan are those from `next` on before it. -/
theorem place_slide (h : Valid c la) (j : ℕ) :
    (la.slide c).place c j = la.place c (la.next.toNat + j) := by
  have hblock : (la.slide c).start = la.place c la.next.toNat := block_eq h
  rw [← UInt32.toNat_inj, toNat_place, toNat_place, hblock, toNat_place, Nat.mod_add_mod,
    Nat.add_assoc]

theorem valid_scanned (h : Valid c la) (tr : Traversal) : Valid c (la.scanned c tr) := by
  have hsize := slide_size c la
  have hck := h.ckpoint
  have hstart : (la.slide c).start = la.place c la.next.toNat := block_eq h
  rw [scanned_eq]
  refine ⟨?_, Nat.zero_le _, ?_, ?_, hck⟩
  · show (la.slide c).start.toNat < _
    rw [hstart]; exact place_lt _
  · show (la.slide c).size.toNat ≤ 0 + la.ckpoint.toNat
    omega
  · show (la.slide c).size.toNat ≤ _
    omega

/-- The bits after a scan: those of the blocks visited. -/
theorem test_scanned {j : ℕ} (hj : j < (la.scanned c tr).size.toNat) :
    Bitmap.test (la.scanned c tr).buffer j ↔
      ∃ b ∈ tr.visited, ((la.scanned c tr).off c b).toNat = j := by
  rw [scanned_eq] at hj ⊢
  have hsize := slide_size c la
  have hj' : j < (la.slide c).size.toNat := hj
  show Bitmap.test ((la.slide c).marks c tr.visited) j ↔
    ∃ b ∈ tr.visited, ((la.slide c).off c b).toNat = j
  have hfold := Bitmap.test_foldl (fun x => ((la.slide c).off c x).toNat)
    (fun x => (la.slide c).off c x < (la.slide c).size) tr.visited (la.slide c).buffer ?_ j
  · have hclear : Bitmap.test (la.slide c).buffer j = false := Bitmap.test_clear _ _
    rw [hclear, Bool.false_or] at hfold
    simp only [decide_eq_true_eq] at hfold
    unfold Lookahead.marks
    rw [hfold]
    simp only [List.any_eq_true, Bool.and_eq_true, decide_eq_true_eq]
    constructor
    · rintro ⟨b, hb, -, rfl⟩; exact ⟨b, hb, rfl⟩
    · rintro ⟨b, hb, rfl⟩; exact ⟨b, hb, UInt32.lt_iff_toNat_lt.2 hj', rfl⟩
  · intro x _ hx
    have hlt : ((la.slide c).off c x).toNat < (la.slide c).size.toNat :=
      UInt32.lt_iff_toNat_lt.1 (of_decide_eq_true hx)
    show ((la.slide c).off c x).toNat < 8 * (List.replicate c.lookaheadSize.toNat 0).length
    rw [List.length_replicate]
    omega

/-! ## The loop -/

theorem advance_next (h : Valid c la) (hin : la.next < la.size) :
    la.advance.next.toNat = la.next.toNat + 1 := by
  have hlt := UInt32.lt_iff_toNat_lt.1 hin
  have hle := c.count_le
  exact toNat_add_of_lt (by have := h.size; show la.next.toNat + 1 < _; omega)

theorem advance_ckpoint (h : Valid c la) (hin : la.next < la.size) :
    la.advance.ckpoint.toNat + 1 = la.ckpoint.toNat := by
  have hlt := UInt32.lt_iff_toNat_lt.1 hin
  have hone : (1 : UInt32) ≤ la.ckpoint :=
    UInt32.le_iff_toNat_le.2 (by have := h.room; show 1 ≤ la.ckpoint.toNat; omega)
  have hsub : la.advance.ckpoint.toNat = la.ckpoint.toNat - 1 := UInt32.toNat_sub_of_le _ _ hone
  have hpos := UInt32.le_iff_toNat_le.1 hone
  have hval : (1 : UInt32).toNat = 1 := rfl
  omega

theorem valid_advance (h : Valid c la) (hin : la.next < la.size) : Valid c la.advance := by
  have hlt := UInt32.lt_iff_toNat_lt.1 hin
  have hnext := advance_next h hin
  have hck := advance_ckpoint h hin
  refine ⟨h.start, ?_, ?_, h.size, ?_⟩
  · show _ ≤ la.size.toNat
    omega
  · show la.size.toNat ≤ _
    have := h.room
    omega
  · have := h.ckpoint
    omega

theorem valid_drop (hstart : la.start.toNat < c.count) : Valid c (allocDrop c la) :=
  ⟨hstart, Nat.le_refl _, Nat.zero_le _, Nat.zero_le _, Nat.le_refl _⟩

/-- A property of the lookahead that the steps of the loop keep, free blocks apart. -/
structure Kept (c : Config) (tr : ℕ → Traversal) (I : Lookahead → Prop) : Prop where
  valid : ∀ la, I la → Valid c la
  move : ∀ la, I la → la.next < la.size → la.taken = true → I la.advance
  scan : ∀ k la, I la → (tr k).err = 0 → I (la.scanned c (tr k))

variable {trs : ℕ → Traversal} {I : Lookahead → Prop}

/-- **Past the blocks in use**: to a free one or to the end. -/
theorem skipUsed_kept (hI : Kept c trs I) (k : ℕ) (la : Lookahead) (h : I la)
    (hk : la.size.toNat ≤ la.next.toNat + k) :
    I (la.skipUsed k) ∧ ((la.skipUsed k).next < (la.skipUsed k).size →
      (la.skipUsed k).taken = false) ∧
      (la.skipUsed k).next.toNat + (la.skipUsed k).ckpoint.toNat =
        la.next.toNat + la.ckpoint.toNat ∧ (la.skipUsed k).size = la.size := by
  induction k generalizing la with
  | zero =>
    refine ⟨h, fun hin => ?_, rfl, rfl⟩
    have hlt : la.next.toNat < la.size.toNat := UInt32.lt_iff_toNat_lt.1 hin
    omega
  | succ k ih =>
    unfold Lookahead.skipUsed
    by_cases hgo : la.next < la.size ∧ la.taken = true
    · rw [if_pos hgo]
      have hnext := advance_next (hI.valid la h) hgo.1
      have hck := advance_ckpoint (hI.valid la h) hgo.1
      obtain ⟨hinv, hfree, hsum, hsize⟩ := ih la.advance (hI.move la h hgo.1 hgo.2)
        (by show la.size.toNat ≤ _; omega)
      exact ⟨hinv, hfree, by omega, hsize⟩
    · rw [if_neg hgo]
      refine ⟨h, fun hin => ?_, rfl, rfl⟩
      by_contra htaken
      exact hgo ⟨hin, Bool.eq_true_of_not_eq_false htaken⟩

theorem skip_kept (hI : Kept c trs I) (h : I la) :
    I la.skip ∧ (la.skip.next < la.skip.size → la.skip.taken = false) ∧
      la.skip.next.toNat + la.skip.ckpoint.toNat = la.next.toNat + la.ckpoint.toNat ∧
      la.skip.size = la.size := by
  have hnext := (hI.valid la h).next
  have hsub : (la.size - la.next).toNat = la.size.toNat - la.next.toNat :=
    UInt32.toNat_sub_of_le _ _ (UInt32.le_iff_toNat_le.2 hnext)
  exact skipUsed_kept hI _ la h (by omega)

/-- How a call of `lfs_alloc` ends, with `I` kept along the way. -/
inductive Outcome (c : Config) (trs : ℕ → Traversal) (I : Lookahead → Prop) :
    AllocOut × Lookahead → Prop
  | block {la : Lookahead} (h : I la) (hin : la.next < la.size) (hfree : la.taken = false) :
    Outcome c trs I (.block (la.block c), la.advance.skip)
  | noSpace {la : Lookahead} (h : I la) (hck : la.ckpoint = 0) : Outcome c trs I (.noSpace, la)
  | failed {la : Lookahead} {k : ℕ} (herr : (trs k).err ≠ 0) (hstart : la.start.toNat < c.count) :
    Outcome c trs I (.failed (trs k).err, allocDrop c la)

/-- **The loop ends**: every scan leaves fewer blocks to look at. -/
theorem allocLoop_outcome (hI : Kept c trs I) (k : ℕ) (la : Lookahead) (h : I la)
    (hk : la.next.toNat + la.ckpoint.toNat ≤ la.size.toNat + k) :
    Outcome c trs I (allocLoop c trs k la) := by
  induction k generalizing la with
  | zero =>
    obtain ⟨hinv, hfree, hsum, hsize⟩ := skip_kept hI h
    unfold allocLoop
    by_cases hin : la.skip.next < la.skip.size
    · simp only [if_pos hin]
      exact .block hinv hin (hfree hin)
    · have hge : la.skip.size.toNat ≤ la.skip.next.toNat :=
        UInt32.le_iff_toNat_le.1 (UInt32.not_lt.1 hin)
      have hck : la.skip.ckpoint = 0 := by
        rw [← UInt32.toNat_inj]
        show _ = 0
        rw [hsize] at hge
        omega
      simp only [if_neg hin, if_pos hck]
      exact .noSpace hinv hck
  | succ k ih =>
    obtain ⟨hinv, hfree, hsum, hsize⟩ := skip_kept hI h
    unfold allocLoop
    by_cases hin : la.skip.next < la.skip.size
    · simp only [if_pos hin]
      exact .block hinv hin (hfree hin)
    · have hge : la.skip.size.toNat ≤ la.skip.next.toNat :=
        UInt32.le_iff_toNat_le.1 (UInt32.not_lt.1 hin)
      by_cases hck : la.skip.ckpoint = 0
      · simp only [if_neg hin, if_pos hck]
        exact .noSpace hinv hck
      · simp only [if_neg hin, if_neg hck]
        by_cases herr : (trs k).err = 0
        · have hscan : allocScan c (trs k) la.skip = (0, la.skip.scanned c (trs k)) :=
            if_neg (not_not.2 herr)
          rw [hscan]
          apply ih _ (hI.scan k _ hinv herr)
          -- the new window holds a block at least
          have hslide := slide_size c la.skip
          have hla : 0 < c.lookaheadSize.toNat := UInt32.lt_iff_toNat_lt.1 c.lookahead_pos
          have hpos : 0 < la.skip.ckpoint.toNat :=
            Nat.pos_of_ne_zero fun h0 => hck (UInt32.toNat_inj.1 h0)
          rw [hsize] at hge
          rw [scanned_eq]
          show 0 + la.skip.ckpoint.toNat ≤ (la.skip.slide c).size.toNat + k
          omega
        · have hscan : allocScan c (trs k) la.skip =
              ((trs k).err, allocDrop c (la.skip.scanned c (trs k))) := if_pos herr
          rw [hscan]
          have hstart := (valid_scanned (hI.valid _ hinv) (trs k)).start
          have hfail := Outcome.failed (I := I) herr hstart
          generalize (trs k).err = err at herr hfail
          match err, herr with
          | .ofNat (n + 1), _ => exact hfail
          | .negSucc n, _ => exact hfail

theorem alloc_outcome (hI : Kept c trs I) (h : I la) : Outcome c trs I (alloc c trs la) := by
  have hnext := (hI.valid la h).next
  exact allocLoop_outcome hI _ la h (by omega)

/-! ## Only free blocks -/

/-- The `ckpoint` blocks from `next` on are not handed out, and no clear bit of the window is that
of a block in use. -/
structure Sound (c : Config) (s : Blocks) : Prop extends Valid c s.la where
  ahead : ∀ j < s.la.ckpoint.toNat, s.la.place c (s.la.next.toNat + j) ∉ s.pending
  window : ∀ j, s.la.next.toNat ≤ j → j < s.la.size.toNat →
    Bitmap.test s.la.buffer j = false → s.la.place c j ∉ s.used

variable {s : Blocks}

theorem sound_advance (h : Sound c s) (hin : s.la.next < s.la.size) :
    Sound c { s with la := s.la.advance } := by
  have hnext := advance_next h.toValid hin
  have hck := advance_ckpoint h.toValid hin
  refine ⟨valid_advance h.toValid hin, ?_, ?_⟩
  · intro j hj
    have hj' : j < s.la.advance.ckpoint.toNat := hj
    show s.la.place c (s.la.advance.next.toNat + j) ∉ s.pending
    rw [hnext, Nat.add_assoc]
    exact h.ahead (1 + j) (by omega)
  · intro j hj
    have hj' : s.la.advance.next.toNat ≤ j := hj
    exact h.window j (by omega)

theorem sound_scanned (h : Sound c s) (hcov : tr.Covers s.used) (herr : tr.err = 0) :
    Sound c { s with la := s.la.scanned c tr } := by
  have hv := valid_scanned h.toValid tr
  have hplace : ∀ j, (s.la.scanned c tr).place c j = s.la.place c (s.la.next.toNat + j) := by
    intro j
    rw [scanned_eq]
    exact place_slide h.toValid j
  have hck : (s.la.scanned c tr).ckpoint = s.la.ckpoint := by rw [scanned_eq]; rfl
  have hnext : (s.la.scanned c tr).next = 0 := by rw [scanned_eq]; rfl
  refine ⟨hv, ?_, ?_⟩
  · intro j hj
    have hj' : j < (s.la.scanned c tr).ckpoint.toNat := hj
    show (s.la.scanned c tr).place c ((s.la.scanned c tr).next.toNat + j) ∉ s.pending
    rw [hnext, hplace, show (0 : UInt32).toNat + j = j from Nat.zero_add j]
    rw [hck] at hj'
    exact h.ahead j hj'
  · intro j _ hj htest hused
    -- a block in use is visited, so its bit is set
    have hlt : j < c.count := lt_of_lt_of_le hj hv.size
    have hset := (test_scanned hj).2 ⟨_, hcov herr _ hused, off_place hv.start hlt⟩
    rw [htest] at hset
    cases hset

theorem sound_kept (hcov : ∀ k, (trs k).Covers s.used) :
    Kept c trs fun la => Sound c { s with la := la } where
  valid _ h := h.toValid
  move _ h hin _ := sound_advance h hin
  scan k la h herr := sound_scanned (s := { s with la := la }) h (hcov k) herr

/-- The block found is free. -/
theorem block_free (h : Sound c s) (hin : s.la.next < s.la.size) (hfree : s.la.taken = false) :
    (s.la.block c).toNat < c.count ∧ s.la.block c ∉ s.used ∧ s.la.block c ∉ s.pending := by
  have hlt := UInt32.lt_iff_toNat_lt.1 hin
  rw [block_eq h.toValid]
  refine ⟨place_lt _, h.window _ (Nat.le_refl _) hlt hfree, ?_⟩
  exact h.ahead 0 (by have := h.room; omega)

/-- The block found, handed out. -/
theorem sound_hand (h : Sound c s) (hin : s.la.next < s.la.size) :
    Sound c { s with la := s.la.advance, pending := insert (s.la.block c) s.pending } := by
  have hadv := sound_advance h hin
  have hnext := advance_next h.toValid hin
  have hck := advance_ckpoint h.toValid hin
  refine ⟨hadv.toValid, ?_, hadv.window⟩
  intro j hj hmem
  have hj' : j < s.la.advance.ckpoint.toNat := hj
  rcases Finset.mem_insert.1 hmem with heq | hmem
  · -- it is `next` that was handed out, and `j` counts on from there
    have hplace : s.la.place c (s.la.next.toNat + 1 + j) = s.la.place c s.la.next.toNat := by
      rw [← hnext, ← block_eq h.toValid]; exact heq
    have hmod : s.la.start.toNat + s.la.next.toNat + (1 + j) ≡
        s.la.start.toNat + s.la.next.toNat + 0 [MOD c.count] := by
      have heqn := congrArg UInt32.toNat hplace
      rw [toNat_place, toNat_place] at heqn
      rw [Nat.add_zero, show s.la.start.toNat + s.la.next.toNat + (1 + j) =
        s.la.start.toNat + (s.la.next.toNat + 1 + j) by omega]
      exact heqn
    have hzero := Nat.ModEq.eq_of_lt_of_lt (Nat.ModEq.add_left_cancel' _ hmod)
      (by have := h.ckpoint; omega) c.count_gt
    omega
  · exact hadv.ahead j hj hmem

theorem sound_drop (hstart : la.start.toNat < c.count) (used : Finset UInt32) :
    Sound c ⟨allocDrop c la, used, ∅⟩ :=
  ⟨valid_drop hstart, fun _ _ => Finset.notMem_empty _,
    fun j _ hj => absurd hj (Nat.not_lt_zero j)⟩

theorem sound_format : Sound c (.start c) := by
  have hsize : (min (8 * c.lookaheadSize) c.blockCount).toNat ≤ c.count := by
    rw [UInt32.toNat_min]; exact Nat.min_le_right _ _
  exact ⟨⟨c.count_gt, Nat.zero_le _, Nat.le_trans hsize (Nat.le_add_left ..), hsize, Nat.le_refl _⟩,
    fun _ _ => Finset.notMem_empty _, fun _ _ _ _ => Finset.notMem_empty _⟩

theorem mod_lt_count (seed : UInt32) : (seed % c.blockCount).toNat < c.count := by
  rw [UInt32.toNat_mod]; exact Nat.mod_lt _ c.count_gt

/-- **What the allocator promises**: a call ends, and a block it hands out is on the device, not
in use, and not handed out since the last checkpoint. -/
def Blocks.Fresh (c : Config) (s : Blocks) : AllocEvent → Prop
  | .alloc tr => (alloc c tr s.la).1 ≠ .running ∧ ∀ b, (alloc c tr s.la).1 = .block b →
      b < c.blockCount ∧ b ∉ s.used ∧ b ∉ s.pending
  | _ => True

/-- **One call.** -/
theorem sound_alloc (h : Sound c s) (hcov : ∀ k, (trs k).Covers s.used) :
    Sound c (s.step c (.alloc trs)) ∧ s.Fresh c (.alloc trs) := by
  have hout : Outcome c trs _ (alloc c trs s.la) := alloc_outcome (sound_kept hcov) h
  unfold Blocks.Fresh Blocks.step
  simp only
  generalize alloc c trs s.la = r at hout ⊢
  cases hout with
  | @block la hla hin hfree =>
    have hhand := sound_hand hla hin
    have hnew : ∀ k, (trs k).Covers { s with pending := insert (la.block c) s.pending }.used := hcov
    refine ⟨(skip_kept (sound_kept hnew) hhand).1, by simp, ?_⟩
    rintro b ⟨⟩
    obtain ⟨hlt, hused, hpending⟩ := block_free hla hin hfree
    exact ⟨UInt32.lt_iff_toNat_lt.2 hlt, hused, hpending⟩
  | noSpace hla _ => exact ⟨hla, by simp, by simp⟩
  | failed _ hstart => exact ⟨sound_drop hstart s.used, by simp, by simp⟩

/-- **One event.** -/
theorem sound_step (h : Sound c s) {e : AllocEvent} (hok : s.ok e) : Sound c (s.step c e) := by
  cases e with
  | alloc tr => exact (sound_alloc h hok).1
  | ckpoint =>
    exact ⟨⟨h.start, h.next, Nat.le_trans h.size (Nat.le_add_left ..), h.size, Nat.le_refl _⟩,
      fun _ _ => Finset.notMem_empty _, h.window⟩
  | scan tr =>
    unfold Blocks.step allocScan
    by_cases herr : tr.err = 0
    · simp only [herr, ne_eq, not_true_eq_false, if_false, if_true]
      exact sound_scanned h hok herr
    · simp only [ne_eq, herr, not_false_eq_true, if_true, if_false]
      exact sound_drop (valid_scanned h.toValid tr).start s.used
  | commit used =>
    refine ⟨h.toValid, h.ahead, ?_⟩
    intro j hj hsize htest hmem
    have hj' : s.la.next.toNat ≤ j := hj
    have hs' : j < s.la.size.toNat := hsize
    rcases Finset.mem_union.1 (hok hmem) with hused | hpending
    · exact h.window j hj hsize htest hused
    · -- the window is part of what `ckpoint` counts
      have hahead := h.ahead (j - s.la.next.toNat) (by have := h.room; omega)
      rw [Nat.add_sub_cancel' hj'] at hahead
      exact hahead hpending
  | format => exact sound_format
  | mount seed used => exact sound_drop (mod_lt_count seed) used

/-- **Only free blocks are handed out**, over any run. -/
theorem alloc_fresh (c : Config) (es : List AllocEvent)
    (h : (allocMachine c).Along Blocks.ok (.start c) es) :
    (allocMachine c).Along (Blocks.Fresh c) (.start c) es := by
  apply Machine.Along.mono_inv (I := Sound c) _ _ sound_format h
  · intro s e hs hok; exact sound_step hs hok
  · intro s e hs hok
    cases e with
    | alloc tr => exact (sound_alloc hs hok).2
    | _ => trivial

/-- A device of ten blocks. -/
def tenBlocks : Config where
  readSize := 16
  progSize := 16
  blockSize := 128
  blockCount := 10
  cacheSize := 64
  lookaheadSize := 1
  read_pos := by decide
  prog_pos := by decide
  cache_pos := by decide
  cache_read := by decide
  cache_prog := by decide
  block_cache := by decide
  block_large := by decide
  lookahead_pos := by decide
  count_pos := by decide
  count_small := by decide
  lookahead_small := by decide

/-- A mount at block 9 with 0 and 1 in use, and two blocks handed out, the first of them committed
in between. -/
theorem alloc_fresh_mount :
    (allocMachine tenBlocks).Along (Blocks.Fresh tenBlocks) (.start tenBlocks)
      [.mount 9 {0, 1}, .alloc fun _ => ⟨[0, 1], 0⟩, .commit {0, 9}, .ckpoint,
        .alloc fun _ => ⟨[0, 9], 0⟩] :=
  have hmount : (⟨[0, 1], 0⟩ : Traversal).Covers {0, 1} := fun _ b hb => by simpa using hb
  have hcommit : (⟨[0, 9], 0⟩ : Traversal).Covers {0, 9} := fun _ b hb => by simpa using hb
  alloc_fresh tenBlocks _ ⟨trivial, fun _ => hmount,
    by change ({0, 9} : Finset UInt32) ⊆ _ ∪ _; decide, trivial, fun _ => hcommit, trivial⟩

/-! ## All of them -/

/-- A traversal that ends well has visited exactly the blocks in use. -/
def Traversal.Exact (tr : Traversal) (used : Finset UInt32) : Prop :=
  tr.err = 0 → ∀ b, b ∈ tr.visited ↔ b ∈ used

/-- The file system frees no block while it is mounted, and a traversal is exact. -/
def Blocks.Grows (c : Config) (s : Blocks) : AllocEvent → Prop
  | .alloc tr => ∀ k, (tr k).Exact s.used
  | .scan tr => tr.Exact s.used
  | .commit used => s.used ⊆ used ∧ used ⊆ s.used ∪ s.pending
  | .mount _ used => ∀ b ∈ used, b < c.blockCount
  | _ => True

/-- The blocks that are in use or handed out. -/
def Blocks.gone (s : Blocks) : Finset UInt32 := s.used ∪ s.pending

/-- The blocks that `ckpoint` does not count are in use or handed out; a bit set in the window is
that of a block in use. -/
structure Full (c : Config) (s : Blocks) : Prop extends Sound c s where
  onDevice : ∀ b ∈ s.gone, b.toNat < c.count
  behind : ∀ j, s.la.ckpoint.toNat ≤ j → j < c.count →
    s.la.place c (s.la.next.toNat + j) ∈ s.gone
  marked : ∀ j, s.la.next.toNat ≤ j → j < s.la.size.toNat →
    Bitmap.test s.la.buffer j = true → s.la.place c j ∈ s.used

theorem Blocks.Grows.ok {e : AllocEvent} (h : s.Grows c e) : s.ok e := by
  cases e with
  | alloc tr => exact fun k herr b hb => (h k herr b).2 hb
  | scan tr => exact fun herr b hb => (h herr b).2 hb
  | commit used => exact h.2
  | _ => trivial

/-- One block further, past one that is gone. -/
theorem behind_advance (h : Valid c s.la) (hin : s.la.next < s.la.size) {gone : Finset UInt32}
    (hbehind : ∀ j, s.la.ckpoint.toNat ≤ j → j < c.count →
      s.la.place c (s.la.next.toNat + j) ∈ gone)
    (hgone : s.la.place c s.la.next.toNat ∈ gone) (j : ℕ)
    (hj : s.la.advance.ckpoint.toNat ≤ j) (hlt : j < c.count) :
    s.la.place c (s.la.advance.next.toNat + j) ∈ gone := by
  have hck := advance_ckpoint h hin
  rw [advance_next h hin, Nat.add_assoc]
  rcases Nat.lt_or_ge (1 + j) c.count with hmore | hend
  · exact hbehind (1 + j) (by omega) hmore
  · -- once around
    rw [show 1 + j = c.count by omega, place_wrap]
    exact hgone

theorem full_advance (h : Full c s) (hin : s.la.next < s.la.size) (htaken : s.la.taken = true) :
    Full c { s with la := s.la.advance } := by
  have hlt := UInt32.lt_iff_toNat_lt.1 hin
  have hnext := advance_next h.toValid hin
  have hused := h.marked _ (Nat.le_refl _) hlt htaken
  refine ⟨sound_advance h.toSound hin, h.onDevice, ?_, ?_⟩
  · exact behind_advance h.toValid hin h.behind (Finset.mem_union_left _ hused)
  · intro j hj
    have hj' : s.la.advance.next.toNat ≤ j := hj
    exact h.marked j (by omega)

theorem full_scanned (h : Full c s) (hex : tr.Exact s.used) (herr : tr.err = 0) :
    Full c { s with la := s.la.scanned c tr } := by
  have hsound := sound_scanned h.toSound (fun he b hb => (hex he b).2 hb) herr
  have hplace : ∀ j, (s.la.scanned c tr).place c j = s.la.place c (s.la.next.toNat + j) := by
    intro j
    rw [scanned_eq]
    exact place_slide h.toValid j
  have hck : (s.la.scanned c tr).ckpoint = s.la.ckpoint := by rw [scanned_eq]; rfl
  have hnext : (s.la.scanned c tr).next = 0 := by rw [scanned_eq]; rfl
  refine ⟨hsound, h.onDevice, ?_, ?_⟩
  · intro j hj hlt
    have hj' : (s.la.scanned c tr).ckpoint.toNat ≤ j := hj
    show (s.la.scanned c tr).place c ((s.la.scanned c tr).next.toNat + j) ∈ s.gone
    rw [hnext, hplace, show (0 : UInt32).toNat + j = j from Nat.zero_add j]
    rw [hck] at hj'
    exact h.behind j hj' hlt
  · intro j _ hj htest
    obtain ⟨b, hb, hoff⟩ := (test_scanned hj).1 htest
    have hused := (hex herr b).1 hb
    have hdev := h.onDevice b (Finset.mem_union_left _ hused)
    have hat : (s.la.scanned c tr).place c j = b := by
      rw [← hoff]; exact place_off hsound.start hdev
    show (s.la.scanned c tr).place c j ∈ s.used
    rw [hat]
    exact hused

theorem full_kept (hex : ∀ k, (trs k).Exact s.used) :
    Kept c trs fun la => Full c { s with la := la } where
  valid _ h := h.toValid
  move _ h hin htaken := full_advance h hin htaken
  scan k la h herr := full_scanned (s := { s with la := la }) h (hex k) herr

theorem full_hand (h : Full c s) (hin : s.la.next < s.la.size) :
    Full c { s with la := s.la.advance, pending := insert (s.la.block c) s.pending } := by
  have hnext := advance_next h.toValid hin
  have hsub : s.gone ⊆ s.used ∪ insert (s.la.block c) s.pending :=
    Finset.union_subset_union_right (Finset.subset_insert ..)
  refine ⟨sound_hand h.toSound hin, ?_, ?_, ?_⟩
  · intro b hb
    rcases Finset.mem_union.1 hb with hb | hb
    · exact h.onDevice b (Finset.mem_union_left _ hb)
    · rcases Finset.mem_insert.1 hb with rfl | hb
      · rw [block_eq h.toValid]; exact place_lt _
      · exact h.onDevice b (Finset.mem_union_right _ hb)
  · refine behind_advance h.toValid hin (fun j hj hlt => hsub (h.behind j hj hlt)) ?_
    rw [← block_eq h.toValid]
    exact Finset.mem_union_right _ (Finset.mem_insert_self ..)
  · intro j hj
    have hj' : s.la.advance.next.toNat ≤ j := hj
    exact h.marked j (by omega)

theorem full_drop (hstart : la.start.toNat < c.count) {used : Finset UInt32}
    (hdev : ∀ b ∈ used, b.toNat < c.count) : Full c ⟨allocDrop c la, used, ∅⟩ := by
  refine ⟨sound_drop hstart used, ?_, ?_, ?_⟩
  · intro b hb
    have hb' : b ∈ used ∪ ∅ := hb
    rw [Finset.union_empty] at hb'
    exact hdev b hb'
  · intro j hj hlt
    exact absurd hlt (Nat.not_lt.2 hj)
  · intro j _ hj
    exact absurd hj (Nat.not_lt_zero j)

theorem full_format : Full c (.start c) := by
  refine ⟨sound_format, ?_, ?_, ?_⟩
  · intro b hb
    cases hb
  · intro j hj hlt
    exact absurd hlt (Nat.not_lt.2 hj)
  · intro j _ _ htest
    have hclear : Bitmap.test (Blocks.start c).la.buffer j = false := Bitmap.test_clear _ _
    rw [hclear] at htest
    cases htest

/-- **The allocator gives up exactly when every block of the device is gone.** -/
def Blocks.FullOnly (c : Config) (s : Blocks) : AllocEvent → Prop
  | .alloc tr => (∀ k, (tr k).err = 0) →
    ((alloc c tr s.la).1 = .noSpace ↔ ∀ b < c.blockCount, b ∈ s.gone)
  | _ => True

/-- With `ckpoint` used up every block of the device is one that it does not count. -/
theorem mem_behind (h : Valid c la) (hck : la.ckpoint = 0) {gone : Finset UInt32}
    (hbehind : ∀ j, la.ckpoint.toNat ≤ j → j < c.count → la.place c (la.next.toNat + j) ∈ gone)
    {b : UInt32} (hb : b.toNat < c.count) : b ∈ gone := by
  have hstart := h.start
  have hplace := place_off h.start hb
  have hlt : (la.off c b).toNat < c.count := mod_lt_count _
  have hall : ∀ j < c.count, la.place c (la.next.toNat + j) ∈ gone := by
    intro j hj
    exact hbehind j (by rw [hck]; exact Nat.zero_le j) hj
  have hnext : la.next.toNat ≤ c.count := Nat.le_trans h.next h.size
  rw [← hplace]
  rcases Nat.lt_or_ge (la.off c b).toNat la.next.toNat with hless | hge
  · -- before `next`: once around
    have hwrap := hall ((la.off c b).toNat + c.count - la.next.toNat) (by omega)
    rw [show la.next.toNat + ((la.off c b).toNat + c.count - la.next.toNat) =
      (la.off c b).toNat + c.count by omega, place_wrap] at hwrap
    exact hwrap
  · have hahead := hall ((la.off c b).toNat - la.next.toNat) (by omega)
    rw [Nat.add_sub_cancel' hge] at hahead
    exact hahead

/-- **One call.** -/
theorem full_alloc (h : Full c s) (hex : ∀ k, (trs k).Exact s.used) :
    Full c (s.step c (.alloc trs)) ∧ s.FullOnly c (.alloc trs) := by
  have hout : Outcome c trs _ (alloc c trs s.la) := alloc_outcome (full_kept hex) h
  unfold Blocks.FullOnly Blocks.step
  simp only
  generalize hr : alloc c trs s.la = r at hout ⊢
  cases hout with
  | @block la hla hin hfree =>
    have hnew : ∀ k, (trs k).Exact { s with pending := insert (la.block c) s.pending }.used := hex
    refine ⟨(skip_kept (full_kept hnew) (full_hand hla hin)).1, fun _ => ?_⟩
    obtain ⟨hlt, hused, hpending⟩ := block_free hla.toSound hin hfree
    refine iff_of_false (by simp) fun hall => ?_
    rcases Finset.mem_union.1 (hall _ (UInt32.lt_iff_toNat_lt.2 hlt)) with hmem | hmem
    · exact hused hmem
    · exact hpending hmem
  | @noSpace la hla hck =>
    refine ⟨hla, fun _ => iff_of_true rfl fun b hb => ?_⟩
    exact mem_behind hla.toValid hck hla.behind (UInt32.lt_iff_toNat_lt.1 hb)
  | failed herr hstart =>
    refine ⟨full_drop hstart fun b hb => h.onDevice b (Finset.mem_union_left _ hb), ?_⟩
    exact fun hnone => absurd (hnone _) herr

/-- **One event.** -/
theorem full_step (h : Full c s) {e : AllocEvent} (hgrow : s.Grows c e) : Full c (s.step c e) := by
  have hsound := sound_step h.toSound hgrow.ok
  cases e with
  | alloc tr => exact (full_alloc h hgrow).1
  | ckpoint =>
    refine ⟨hsound, ?_, fun j hj hlt => absurd hlt (Nat.not_lt.2 hj), h.marked⟩
    intro b hb
    have hb' : b ∈ s.used ∪ ∅ := hb
    rw [Finset.union_empty] at hb'
    exact h.onDevice b (Finset.mem_union_left _ hb')
  | scan tr =>
    unfold Blocks.step allocScan
    by_cases herr : tr.err = 0
    · simp only [herr, ne_eq, not_true_eq_false, if_false, if_true]
      exact full_scanned h hgrow herr
    · simp only [ne_eq, herr, not_false_eq_true, if_true, if_false]
      exact full_drop (valid_scanned h.toValid tr).start
        fun b hb => h.onDevice b (Finset.mem_union_left _ hb)
  | commit used =>
    obtain ⟨hkeep, hnew⟩ := hgrow
    have hsub : s.gone ⊆ used ∪ s.pending := Finset.union_subset_union_left hkeep
    refine ⟨hsound, ?_, fun j hj hlt => hsub (h.behind j hj hlt),
      fun j hj hsize htest => hkeep (h.marked j hj hsize htest)⟩
    intro b hb
    rcases Finset.mem_union.1 hb with hb | hb
    · exact h.onDevice b (hnew hb)
    · exact h.onDevice b (Finset.mem_union_right _ hb)
  | format => exact full_format
  | mount seed used =>
    exact full_drop (mod_lt_count seed) fun b hb => UInt32.lt_iff_toNat_lt.1 (hgrow b hb)

/-- **`LFS_ERR_NOSPC` is reported exactly when no block is free**, over any run in which no commit
frees a block. -/
theorem alloc_full_iff (c : Config) (es : List AllocEvent)
    (h : (allocMachine c).Along (Blocks.Grows c) (.start c) es) :
    (allocMachine c).Along (Blocks.FullOnly c) (.start c) es := by
  apply Machine.Along.mono_inv (I := Full c) _ _ full_format h
  · intro s e hs hgrow; exact full_step hs hgrow
  · intro s e hs hgrow
    cases e with
    | alloc tr => exact (full_alloc hs hgrow).2
    | _ => trivial

/-- A device with one block left: it is handed out, then none. -/
theorem alloc_full_iff_last :
    (allocMachine tenBlocks).Along (Blocks.FullOnly tenBlocks) (.start tenBlocks)
      [.mount 4 {0, 1, 2, 3, 5, 6, 7, 8, 9},
        .alloc fun _ => ⟨[0, 1, 2, 3, 5, 6, 7, 8, 9], 0⟩,
        .alloc fun _ => ⟨[0, 1, 2, 3, 5, 6, 7, 8, 9], 0⟩] :=
  have hexact : (⟨[0, 1, 2, 3, 5, 6, 7, 8, 9], 0⟩ : Traversal).Exact
      {0, 1, 2, 3, 5, 6, 7, 8, 9} := fun _ b => by simp
  alloc_full_iff tenBlocks _ ⟨by change ∀ b ∈ _, _; simp [tenBlocks], fun _ => hexact,
    fun _ => hexact, trivial⟩

end Boatdash.Lfs
