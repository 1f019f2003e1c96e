import Mathlib.Data.Set.Basic
import Mathlib.Data.Finset.Card
import Boatdash.Proof.Lfs.Alloc
import Boatdash.Proof.Lfs.Find

/-!
# Free blocks for the open file

`lfs_alloc` on the volume, where a scan is a real traversal. As long as a traversal finds what is
used (`Visible`), a block that is handed out is none of it, and not handed out since the last
checkpoint (`wp_volAlloc`). `visible_of`: a traversal finds the blocks of the committed version,
those of the open file's own version and those it has written.

It ends in `LFS_ERR_NOSPC` only when the volume is `Full`: no block is left that a scan had not
marked and that was not handed out.
-/

namespace Boatdash.Lfs

open Prog

variable {c : Config} {v v' v'' : Volume c} {used used' pend pend' : Finset UInt32} {w : Prop}
  {la : Lookout} {S S' : Set UInt32}

/-- Every block was looked at since the last checkpoint, and each of them a scan had marked, or it
was handed out, since the lookahead was dropped. -/
def Volume.Full (v : Volume c) : Prop :=
  v.la.ckpoint = 0 ∧ ∀ b < c.blockCount, b ∈ v.la.found

/-- The error is the result of the last call, or no block is left. -/
def Volume.Failed (v : Volume c) (e : Stop) : Prop := v.Errs e ∨ e = .err errNoSpc ∧ v.Full

/-! ## What stays -/

/-- The volumes differ at most in the lookahead, the calls made, the open file, and the bytes of
blocks outside of `S`; those of `S` are not in the caches if they were not. -/
structure Intact (S : Set UInt32) (v v' : Volume c) : Prop where
  mem : ∀ b ∈ S, v'.mem b = v.mem b
  unflushed : ∀ b ∈ S, b ∈ v'.unflushed → b ∈ v.unflushed
  unsynced : ∀ b ∈ S, b ∈ v'.unsynced → b ∈ v.unflushed ∨ b ∈ v.unsynced
  env : v'.env = v.env
  lim : v'.lim = v.lim
  tree : v'.tree = v.tree
  dirs : v'.dirs = v.dirs
  entry : v'.entry = v.entry

theorem Intact.refl (S : Set UInt32) (v : Volume c) : Intact S v v :=
  ⟨fun _ _ => rfl, fun _ _ h => h, fun _ _ => .inr, rfl, rfl, rfl, rfl, rfl⟩

theorem Intact.trans (h : Intact S v v') (h' : Intact S v' v'') : Intact S v v'' :=
  ⟨fun b hb => (h'.mem b hb).trans (h.mem b hb),
    fun b hb hin => h.unflushed b hb (h'.unflushed b hb hin),
    fun b hb hin => (h'.unsynced b hb hin).elim (fun hin => .inl (h.unflushed b hb hin))
      (h.unsynced b hb),
    h'.env.trans h.env, h'.lim.trans h.lim, h'.tree.trans h.tree, h'.dirs.trans h.dirs,
    h'.entry.trans h.entry⟩

theorem Intact.mono (h : Intact S v v') (hS : S' ⊆ S) : Intact S' v v' :=
  { h with
    mem := fun b hb => h.mem b (hS hb)
    unflushed := fun b hb => h.unflushed b (hS hb)
    unsynced := fun b hb => h.unsynced b (hS hb) }

/-- The handle `orig` stays as well. -/
structure Apart (S : Set UInt32) (v v' : Volume c) : Prop extends Intact S v v' where
  orig : v'.orig = v.orig

theorem Apart.refl (S : Set UInt32) (v : Volume c) : Apart S v v := ⟨Intact.refl S v, rfl⟩

theorem Apart.trans (h : Apart S v v') (h' : Apart S v' v'') : Apart S v v'' :=
  ⟨h.toIntact.trans h'.toIntact, h'.orig.trans h.orig⟩

theorem Apart.mono (h : Apart S v v') (hS : S' ⊆ S) : Apart S' v v' :=
  ⟨h.toIntact.mono hS, h.orig⟩

/-- A block outside of `S` is written. -/
theorem Apart.write (h : Apart S v v') {b : UInt32} (hb : b ∉ S) {mem : UInt32 → ℕ → UInt8}
    (hmem : ∀ x, x ≠ b → mem x = v'.mem x) : Apart S v (v'.withMem b mem) :=
  { h with
    mem := fun x hx => (hmem x fun hxb => hb (hxb ▸ hx)).trans (h.mem x hx)
    unflushed := fun x hx hin => (List.mem_cons.1 hin).elim (fun hxb => absurd (hxb ▸ hx) hb)
      (h.unflushed x hx) }

/-- The volumes differ at most in the lookahead and the calls made. -/
structure Quiet (v v' : Volume c) : Prop extends Apart Set.univ v v' where
  file : v'.file = v.file

theorem Quiet.refl (v : Volume c) : Quiet v v := ⟨Apart.refl _ v, rfl⟩

theorem Quiet.trans (h : Quiet v v') (h' : Quiet v' v'') : Quiet v v'' :=
  ⟨h.toApart.trans h'.toApart, h'.file.trans h.file⟩

theorem quiet_waited (v : Volume c) (n : ℕ) : Quiet v (v.waited n) :=
  ⟨⟨⟨fun _ _ => rfl, fun _ _ h => h, fun _ _ => .inr, rfl, rfl, rfl, rfl, rfl⟩, rfl⟩, rfl⟩

theorem Quiet.apart (h : Quiet v v') (S : Set UInt32) : Apart S v v' :=
  h.toApart.mono (Set.subset_univ S)

theorem Quiet.mem_eq (h : Quiet v v') : v'.mem = v.mem := funext fun b => h.mem b (Set.mem_univ b)

/-! ## The allocator's state -/

/-- The blocks that `ckpoint` does not count are in `found`, and those of the bits that are set. -/
structure Passed (c : Config) (la : Lookout) : Prop where
  behind : ∀ j, la.ckpoint.toNat ≤ j → j < c.count → la.place c (la.next.toNat + j) ∈ la.found
  marked : ∀ j, la.next.toNat ≤ j → j < la.size.toNat → Bitmap.test la.buffer j = true →
    la.place c j ∈ la.found

/-- The allocator, with `used` in use and `pend` handed out since the last checkpoint. -/
structure Ready (c : Config) (la : Lookout) (used pend : Finset UInt32) : Prop
    extends Sound c ⟨la.toLookahead, used, pend⟩, Passed c la where
  handed : ∀ b ∈ pend, b < c.blockCount

theorem Ready.mono (h : Ready c la used pend) (hused : used' ⊆ used ∪ pend) (hpend : pend' ⊆ pend) :
    Ready c la used' pend' := by
  have hcommit : Sound c ⟨la.toLookahead, used', pend⟩ :=
    sound_step h.toSound (e := .commit used') hused
  exact ⟨⟨hcommit.toValid, fun j hj hb => hcommit.ahead j hj (hpend hb), hcommit.window⟩,
    h.toPassed, fun b hb => h.handed b (hpend hb)⟩

theorem Ready.checked (h : Ready c la used pend) :
    Ready c (la.map (allocCkpoint c)) used ∅ :=
  ⟨sound_step h.toSound (e := .ckpoint) trivial,
    ⟨fun _ hj hlt => absurd hlt (Nat.not_lt.2 hj), h.marked⟩,
    fun _ hb => absurd hb (Finset.notMem_empty _)⟩

/-- The lookahead was dropped. -/
theorem ready_drop (hstart : la.start.toNat < c.count) (used : Finset UInt32) :
    Ready c (la.drop c) used ∅ :=
  ⟨sound_drop hstart used, ⟨fun _ hj hlt => absurd hlt (Nat.not_lt.2 hj),
    fun _ _ hj => absurd hj (Nat.not_lt_zero _)⟩, fun _ hb => absurd hb (Finset.notMem_empty _)⟩

/-- One block further, past one that is marked. -/
theorem Ready.advance (h : Ready c la used pend) (hin : la.next < la.size)
    (htaken : la.taken = true) : Ready c (la.map Lookahead.advance) used pend := by
  have hnext : la.toLookahead.advance.next.toNat = la.toLookahead.next.toNat + 1 :=
    advance_next h.toValid hin
  have hmarked := h.marked _ (Nat.le_refl _) (UInt32.lt_iff_toNat_lt.1 hin) htaken
  refine ⟨sound_advance h.toSound hin, ⟨?_, ?_⟩, h.handed⟩
  · exact behind_advance (s := ⟨la.toLookahead, used, pend⟩) h.toValid hin h.behind hmarked
  · intro j hj
    have hj' : la.toLookahead.advance.next.toNat ≤ j := hj
    exact h.marked j (by omega)

/-- A free block is handed out. -/
theorem Ready.hand (h : Ready c la used pend) (hin : la.next < la.size) :
    Ready c ⟨la.advance, insert (la.block c) la.found⟩ used (insert (la.block c) pend) := by
  have hnext : la.toLookahead.advance.next.toNat = la.toLookahead.next.toNat + 1 :=
    advance_next h.toValid hin
  have hblock := block_eq h.toValid
  refine ⟨sound_hand (s := ⟨la.toLookahead, used, pend⟩) h.toSound hin, ⟨?_, ?_⟩, ?_⟩
  · refine behind_advance (s := ⟨la.toLookahead, used, pend⟩) h.toValid hin
      (fun j hj hlt => Finset.mem_insert_of_mem (h.behind j hj hlt)) ?_
    show la.place c la.next.toNat ∈ _
    rw [← hblock]
    exact Finset.mem_insert_self ..
  · intro j hj hsize htest
    have hj' : la.toLookahead.advance.next.toNat ≤ j := hj
    exact Finset.mem_insert_of_mem (h.marked j (by omega) hsize htest)
  · intro b hb
    rcases Finset.mem_insert.1 hb with rfl | hb
    · rw [hblock]
      exact UInt32.lt_iff_toNat_lt.2 (place_lt _)
    · exact h.handed b hb

/-- The block of a bit that is set. -/
theorem mem_marked {la : Lookahead} (h : Valid c la) {j : ℕ} (hj : j < la.size.toNat)
    (htest : Bitmap.test la.buffer j = true) : la.place c j ∈ la.marked c := by
  have hle := c.count_le
  have hstart := h.start
  have hsize := h.size
  have hof : (UInt32.ofNat j).toNat = j := UInt32.toNat_ofNat_of_lt' (by unfold UInt32.size; omega)
  have hplace : (la.start + .ofNat j) % c.blockCount = la.place c j := by
    rw [← UInt32.toNat_inj, toNat_place, UInt32.toNat_mod, toNat_add_of_lt (by omega), hof]
    rfl
  rw [← hplace]
  exact List.mem_map_of_mem (List.mem_filter.2 ⟨List.mem_range.2 hj, htest⟩)

/-- The next window, that a traversal of what is used has filled. -/
theorem Ready.scanned (h : Ready c la used pend) {l : List UInt32} (hl : ∀ b ∈ used, b ∈ l) :
    Ready c ((la.map (Lookahead.slide c)).mark c l) used pend := by
  have hcov : Traversal.Covers ⟨l, 0⟩ used := fun _ => hl
  have hsound : Sound c ⟨la.scanned c ⟨l, 0⟩, used, pend⟩ :=
    sound_scanned (s := ⟨la.toLookahead, used, pend⟩) h.toSound hcov rfl
  refine ⟨hsound, ⟨?_, ?_⟩, h.handed⟩
  · intro j hj hlt
    have hck : (la.scanned c ⟨l, 0⟩).ckpoint = la.ckpoint := by rw [scanned_eq]; rfl
    have hnext : (la.scanned c ⟨l, 0⟩).next = 0 := by rw [scanned_eq]; rfl
    have hplace : (la.scanned c ⟨l, 0⟩).place c j = la.place c (la.next.toNat + j) := by
      rw [scanned_eq]
      exact place_slide h.toValid j
    have hj' : (la.scanned c ⟨l, 0⟩).ckpoint.toNat ≤ j := hj
    rw [hck] at hj'
    refine Finset.mem_union_right _ ?_
    show (la.scanned c ⟨l, 0⟩).place c ((la.scanned c ⟨l, 0⟩).next.toNat + j) ∈ la.found
    rw [hnext, show (0 : UInt32).toNat + j = j from Nat.zero_add j, hplace]
    exact h.behind j hj' hlt
  · intro j _ hj htest
    exact Finset.mem_union_left _ (List.mem_toFinset.2 (mem_marked hsound.toValid hj htest))

/-- Only so many blocks can be handed out. -/
theorem Ready.card_le (h : Ready c la used pend) : pend.card ≤ c.count := by
  have hsub : pend.image UInt32.toNat ⊆ Finset.range c.count := by
    intro n hn
    obtain ⟨b, hb, rfl⟩ := Finset.mem_image.1 hn
    exact Finset.mem_range.2 (UInt32.lt_iff_toNat_lt.1 (h.handed b hb))
  have hle := Finset.card_le_card hsub
  rw [Finset.card_range, Finset.card_image_of_injective _ fun a b => UInt32.toNat_inj.1] at hle
  exact hle

/-- A traversal finds what is used, on every volume that has the same there. -/
def Visible (w : Prop) (v : Volume c) (used : Finset UInt32) : Prop :=
  ∀ v', Apart used v v' → v'.file = v.file →
    wp w fsTraverse (fun l v'' => (∀ b ∈ used, b ∈ l) ∧ Quiet v' v'' ∧ v''.la = v'.la)
      (fun e v'' => v''.Errs e ∧ Quiet v' v'' ∧ v''.la = v'.la) v'

theorem Visible.apart (h : Visible w v used) (ha : Apart used v v') (hf : v'.file = v.file) :
    Visible w v' used :=
  fun v'' ha' hf' => h v'' (ha.trans ha') (hf'.trans hf)

theorem Visible.quiet (h : Visible w v used) (hq : Quiet v v') : Visible w v' used :=
  h.apart (hq.apart _) hq.file

/-! ## One allocation -/

theorem quiet_strayed (v : Volume c) (on : Bool) : Quiet v { v with lost := on } :=
  ⟨⟨⟨fun _ _ => rfl, fun _ _ h => h, fun _ _ => .inr, rfl, rfl, rfl, rfl, rfl⟩, rfl⟩, rfl⟩

/-- The volume with another lookahead. -/
def Volume.withLa (v : Volume c) (la : Lookout) : Volume c := { v with la := la }

theorem quiet_withLa (h : Quiet v v') (la : Lookout) : Quiet v (v'.withLa la) :=
  ⟨⟨⟨h.mem, h.unflushed, h.unsynced, h.env, h.lim, h.tree, h.dirs, h.entry⟩, h.orig⟩, h.file⟩

/-- How many blocks are left to look at beyond the window. -/
def Lookahead.left (la : Lookahead) : ℕ := la.next.toNat + la.ckpoint.toNat - la.size.toNat

/-- **A scan**: the next window, if the traversal ends well. -/
theorem wp_volScan (hr : Ready c v.la used pend) (hv : Visible w v used) :
    wp w volScan
      (fun _ v' => (∃ l : List UInt32, (∀ b ∈ used, b ∈ l) ∧
        v'.la = (v.la.map (Lookahead.slide c)).mark c l) ∧ Quiet v v')
      (fun e v' => v'.Errs e ∧ Ready c v'.la used ∅ ∧ Quiet v v') v := by
  unfold volScan
  refine wp_bind (wp_update ?_)
  have hslide : Quiet v (v.withLa (v.la.map (Lookahead.slide c))) := quiet_withLa (Quiet.refl v) _
  have htrav := hv _ (hslide.apart _) hslide.file
  refine wp_bind (wp_attempt (wp_mono htrav ?_ ?_))
  · rintro l v' ⟨hl, hq, hla⟩
    refine wp_update ⟨⟨l, hl, ?_⟩, quiet_withLa (hslide.trans hq) _⟩
    show v'.la.mark c l = _
    rw [hla]
    rfl
  · rintro e v' ⟨he, hq, hla⟩
    refine wp_bind (wp_update (wp_fail ⟨he, ready_drop ?_ used, quiet_withLa (hslide.trans hq) _⟩))
    rw [hla]
    exact (valid_scanned hr.toValid ⟨[], 0⟩).start

/-- What the allocator keeps on its way to a free block. -/
theorem ready_kept (found used pend : Finset UInt32) :
    Kept c (fun _ => ⟨[], 1⟩) fun la => Ready c ⟨la, found⟩ used pend where
  valid _ h := h.toValid
  move _ h hin htaken := h.advance hin htaken
  scan _ _ _ herr := absurd herr (by decide)

/-- The result of a round: a block that is free, or fewer blocks to look at. -/
def Found (c : Config) (v : Volume c) (used pend : Finset UInt32) :
    Option UInt32 → Volume c → Prop
  | some b, v' => b < c.blockCount ∧ b ∉ used ∧ b ∉ pend ∧ Ready c v'.la used (insert b pend) ∧
      Quiet v v'
  | none, v' => Ready c v'.la used pend ∧ v'.la.left < v.la.left ∧ Quiet v v'

theorem wp_volAllocRound (hr : Ready c v.la used pend) (hv : Visible w v used) :
    wp w volAllocRound (Found c v used pend)
      (fun e v' => v'.Failed e ∧ Ready c v'.la used ∅ ∧ Quiet v v') v := by
  have hsame : Ready c ⟨v.la.toLookahead, v.la.found⟩ used pend := hr
  obtain ⟨hskip, hfree, hsum, hsize⟩ := skip_kept (ready_kept v.la.found used pend) hsame
  have hquiet : Quiet v (v.withLa (v.la.map Lookahead.skip)) := quiet_withLa (Quiet.refl v) _
  unfold volAllocRound
  refine wp_bind (wp_update (wp_bind (wp_look ?_)))
  by_cases hin : (v.la.map Lookahead.skip).next < (v.la.map Lookahead.skip).size
  · rw [if_pos hin]
    refine wp_bind (wp_update (wp_pure ?_))
    obtain ⟨hlt, hused, hpend⟩ :=
      block_free (s := ⟨v.la.skip, used, pend⟩) hskip.toSound hin (hfree hin)
    exact ⟨UInt32.lt_iff_toNat_lt.2 hlt, hused, hpend,
      (skip_kept (ready_kept _ used _) (hskip.hand hin)).1, quiet_withLa (Quiet.refl v) _⟩
  · rw [if_neg hin]
    have hge : v.la.skip.size.toNat ≤ v.la.skip.next.toNat :=
      UInt32.le_iff_toNat_le.1 (UInt32.not_lt.1 hin)
    by_cases hck : (v.la.map Lookahead.skip).ckpoint = 0
    · rw [if_pos hck]
      have hfull : (v.withLa (v.la.map Lookahead.skip)).Full :=
        ⟨hck, fun b hb => mem_behind hskip.toValid hck hskip.behind (UInt32.lt_iff_toNat_lt.1 hb)⟩
      exact wp_fail ⟨.inr ⟨rfl, hfull⟩, hskip.mono Finset.subset_union_left (Finset.empty_subset _),
        hquiet⟩
    · rw [if_neg hck]
      refine wp_then (wp_volScan (v := v.withLa (v.la.map Lookahead.skip)) hskip (hv.quiet hquiet)) ?_ ?_
      · rintro _ v' ⟨⟨l, hl, hla⟩, hq⟩
        -- the new window holds a block at least
        have hslide := slide_size c v.la.skip
        have hpos : 0 < v.la.skip.ckpoint.toNat :=
          Nat.pos_of_ne_zero fun h0 => hck (UInt32.toNat_inj.1 h0)
        have hlook : 0 < c.lookaheadSize.toNat := UInt32.lt_iff_toNat_lt.1 c.lookahead_pos
        have hroom : v.la.size.toNat ≤ v.la.next.toNat + v.la.ckpoint.toNat := hr.room
        refine wp_pure ⟨?_, ?_, hquiet.trans hq⟩
        · rw [hla]
          exact hskip.scanned hl
        · have hleft : v'.la.left = 0 + v.la.skip.ckpoint.toNat - (v.la.skip.slide c).size.toNat := by
            rw [hla]
            show (v.la.skip.scanned c ⟨l, 0⟩).left = _
            rw [scanned_eq]
            rfl
          rw [hleft]
          unfold Lookahead.left
          rw [hsize] at hge
          omega
      · rintro e v' ⟨he, hready, hq⟩
        exact ⟨.inl he, hready, hquiet.trans hq⟩

theorem wp_volAllocLoop (k : ℕ) (v : Volume c) (hr : Ready c v.la used pend)
    (hv : Visible w v used) (hk : v.la.left < k) :
    wp w (volAllocLoop k)
      (fun b v' => b < c.blockCount ∧ b ∉ used ∧ b ∉ pend ∧ Ready c v'.la used (insert b pend) ∧
        Quiet v v')
      (fun e v' => v'.Failed e ∧ Ready c v'.la used ∅ ∧ Quiet v v') v := by
  induction k generalizing v with
  | zero => exact absurd hk (Nat.not_lt_zero _)
  | succ k ih =>
    refine wp_then (wp_volAllocRound hr hv) ?_ fun e v' h => h
    rintro (_ | b) v' hfound
    · obtain ⟨hready, hless, hq⟩ := hfound
      refine wp_mono (ih v' hready (hv.quiet hq) (by omega)) ?_ ?_
      · rintro b v'' ⟨hdev, hused, hpend, hr', hq'⟩
        exact ⟨hdev, hused, hpend, hr', hq.trans hq'⟩
      · rintro e v'' ⟨he, hr', hq'⟩
        exact ⟨he, hr', hq.trans hq'⟩
    · exact wp_pure hfound

/-- **An allocation** hands out a free block. -/
theorem wp_volAlloc (hr : Ready c v.la used pend) (hv : Visible w v used) :
    wp w volAlloc
      (fun b v' => b < c.blockCount ∧ b ∉ used ∧ b ∉ pend ∧ Ready c v'.la used (insert b pend) ∧
        Quiet v v')
      (fun e v' => v'.Failed e ∧ Ready c v'.la used ∅ ∧ Quiet v v') v := by
  refine wp_bind (wp_look (wp_volAllocLoop _ v hr hv ?_))
  have hnext : v.la.next.toNat ≤ v.la.size.toNat := hr.next
  unfold Lookahead.left
  omega

/-! ## What a traversal finds -/

theorem Chain.congr {mem mem' : UInt32 → ℕ → UInt8} {blk : List UInt32} {top size : UInt32}
    (h : Chain c mem blk top size) (hmem : ∀ b ∈ blk, mem' b = mem b) :
    Chain c mem' blk top size := by
  refine { h with linked := h.linked.congr fun i x k hx _ _ => ?_ }
  unfold ptrAt wordAt bytesAt
  rw [hmem x (List.mem_of_getElem? hx)]

/-- The blocks `blk` of a file are what is traversed from `top`. A file of one block that is not
there, as that of an inline file, does no harm. -/
def Walked (c : Config) (mem : UInt32 → ℕ → UInt8) (blk : List UInt32) (top size : UInt32) : Prop :=
  Chain c mem blk top size ∨ blk = [] ∧ c.blocksOf size.toNat ≤ 1

theorem Walked.congr {mem mem' : UInt32 → ℕ → UInt8} {blk : List UInt32} {top size : UInt32}
    (h : Walked c mem blk top size) (hmem : ∀ b ∈ blk, mem' b = mem b) :
    Walked c mem' blk top size := h.imp (fun h => h.congr hmem) id

theorem wp_walked {blk : List UInt32} {top size : UInt32} (h : Walked c v.mem blk top size) :
    wp w (ctzTraverse top size) (fun l v' => (∀ b ∈ blk, b ∈ l) ∧ Quiet v v' ∧ v'.la = v.la)
      (fun e v' => v'.Errs e ∧ Quiet v v' ∧ v'.la = v.la) v := by
  rcases h with h | ⟨rfl, hone⟩
  · refine wp_mono (wp_ctzTraverse h) ?_ ?_
    · rintro l v' ⟨rfl, n, -, rfl⟩
      exact ⟨fun b hb => List.mem_reverse.2 hb, quiet_waited v n, rfl⟩
    · rintro e v' ⟨he, n, rfl⟩
      exact ⟨he.errs rfl, quiet_waited v n, rfl⟩
  · unfold ctzTraverse
    by_cases hsize : size = 0
    · rw [if_pos hsize]
      exact wp_pure ⟨fun _ h => (nomatch h), Quiet.refl v, rfl⟩
    · rw [if_neg hsize]
      have hlast := toNat_last c hsize
      have hindex : (ctzIndex c (size - 1)).1.toNat = 0 := by omega
      simp only [hindex]
      exact wp_pure ⟨fun _ h => (nomatch h), Quiet.refl v, rfl⟩

/-- What a traversal of the volume is to find: `comm` of the committed version, `own` of the open
file's, `br` that it has written. None of them is a block of a directory. -/
structure Shown (v : Volume c) (comm own br : List UInt32) : Prop where
  entry : ∀ head size, v.entry = .ctzStruct head size → Chain c v.mem comm head size
  inline : ∀ data, v.entry = .inlineStruct data → comm = []
  dirty : v.file.dirty = true → v.file.inlined = false →
    Walked c v.mem own v.file.head v.file.size
  clean : (v.file.dirty && !v.file.inlined) = false → ∀ b ∈ own, b ∈ comm
  written : v.file.writing = true → v.file.inlined = false → v.file.between c = false →
    Walked c v.mem br v.file.block v.file.pos
  unwritten : (v.file.writing && !v.file.inlined) = false → br = []
  outside : ∀ b, b ∈ own ∨ b ∈ br → b ∉ v.dirs

/-- The blocks of other files and of the directories. -/
def Volume.others (v : Volume c) : List UInt32 := v.tree ++ v.dirs

theorem mem_others {b : UInt32} : b ∈ v.others ↔ b ∈ v.tree ∨ b ∈ v.dirs := List.mem_append

/-- All that is used. -/
def Volume.using (v : Volume c) (comm own br : List UInt32) : Finset UInt32 :=
  (v.others ++ comm ++ own ++ br).toFinset

theorem mem_using {comm own br : List UInt32} {b : UInt32} :
    b ∈ v.using comm own br ↔ b ∈ v.others ∨ b ∈ comm ∨ b ∈ own ∨ b ∈ br := by
  unfold Volume.using
  simp only [List.mem_toFinset, List.mem_append, or_assoc]

/-- Other blocks are written, which the allocator holds on to. -/
theorem Ready.grow {comm own br br' : List UInt32} (h : Ready c la (v.using comm own br) pend)
    (hbr : ∀ b ∈ br', b ∈ v.using comm own br ∪ pend) : Ready c la (v.using comm own br') pend := by
  refine h.mono (fun b hb => ?_) (Finset.Subset.refl _)
  rcases mem_using.1 hb with hb | hb | hb | hb
  · exact Finset.mem_union_left _ (mem_using.2 (.inl hb))
  · exact Finset.mem_union_left _ (mem_using.2 (.inr (.inl hb)))
  · exact Finset.mem_union_left _ (mem_using.2 (.inr (.inr (.inl hb))))
  · exact hbr b hb

/-- The file is not written anymore, and has no blocks that it did not have. -/
theorem Ready.settle {comm comm' own own' br : List UInt32}
    (h : Ready c la (v.using comm own br) pend)
    (hcomm : ∀ b ∈ comm', b ∈ comm ∨ b ∈ own ∨ b ∈ br)
    (hown : ∀ b ∈ own', b ∈ comm ∨ b ∈ own ∨ b ∈ br) : Ready c la (v.using comm' own' []) ∅ := by
  refine h.mono (fun b hb => Finset.mem_union_left _ (mem_using.2 ?_)) (Finset.empty_subset _)
  rcases mem_using.1 hb with hb | hb | hb | hb
  · exact .inl hb
  · exact .inr (hcomm b hb)
  · exact .inr (hown b hb)
  · cases hb

theorem Shown.intact {comm own br : List UInt32} (h : Shown v comm own br)
    (ha : Intact (v.using comm own br) v v') (hf : v'.file = v.file) : Shown v' comm own br := by
  have hmem : ∀ b, (b ∈ v.others ∨ b ∈ comm ∨ b ∈ own ∨ b ∈ br) → v'.mem b = v.mem b :=
    fun b hb => ha.mem b (mem_using.2 hb)
  refine ⟨?_, ?_, ?_, ?_, ?_, ?_, ?_⟩
  · intro head size he
    rw [ha.entry] at he
    exact (h.entry head size he).congr fun b hb => hmem b (.inr (.inl hb))
  · rw [ha.entry]
    exact h.inline
  · rw [hf]
    exact fun hd hi => (h.dirty hd hi).congr fun b hb => hmem b (.inr (.inr (.inl hb)))
  · rw [hf]
    exact h.clean
  · rw [hf]
    exact fun hw hi hb => (h.written hw hi hb).congr fun b hb => hmem b (.inr (.inr (.inr hb)))
  · rw [hf]
    exact h.unwritten
  · rw [ha.dirs]
    exact h.outside

/-- The committed version in a traversal. -/
theorem wp_entryTraverse {comm own br : List UInt32} (h : Shown v comm own br) :
    wp w (entryTraverse v.entry) (fun l v' => (∀ b ∈ comm, b ∈ l) ∧ Quiet v v' ∧ v'.la = v.la)
      (fun e v' => v'.Errs e ∧ Quiet v v' ∧ v'.la = v.la) v := by
  cases hentry : v.entry with
  | inlineStruct data =>
    rw [h.inline data hentry]
    exact wp_pure ⟨fun _ h => (nomatch h), Quiet.refl v, rfl⟩
  | ctzStruct head size => exact wp_walked (Or.inl (h.entry head size hentry))

/-- The blocks of the open file in a traversal. -/
theorem wp_openTraverse (blk : List UInt32) {top size : UInt32} {own : Bool}
    (h : own = true → Walked c v.mem blk top size) :
    wp w (openTraverse own top size)
      (fun l v' => (own = true → ∀ b ∈ blk, b ∈ l) ∧ Quiet v v' ∧ v'.la = v.la)
      (fun e v' => v'.Errs e ∧ Quiet v v' ∧ v'.la = v.la) v := by
  unfold openTraverse
  cases own with
  | false => exact wp_pure ⟨fun h => (nomatch h), Quiet.refl v, rfl⟩
  | true =>
    refine wp_mono (wp_walked (h rfl)) ?_ fun e v' h => h
    rintro l v' ⟨hl, hq⟩
    exact ⟨fun _ => hl, hq⟩

theorem own_eq {a b : Bool} (h : (a && !b) = true) : a = true ∧ b = false := by
  cases a <;> cases b <;> simp_all

/-- The volume after a mark, and not lost by it. -/
theorem wp_stray {on : Bool} {Q : Unit → Volume c → Prop} {E : Stop → Volume c → Prop}
    (hw : w ∨ on = false) (h : ∀ v', Quiet v v' → v'.la = v.la → on = false → Q () v') :
    wp w (stray on) Q E v := by
  cases on with
  | true => exact fun hn => absurd ⟨hw.resolve_right (by decide), by simp⟩ hn
  | false => exact wp_update (h _ (quiet_strayed v _) rfl rfl)

/-- **A traversal finds everything that is used**, or the volume is lost. -/
theorem visible_of {comm own br : List UInt32} (h : Shown v comm own br)
    (hw : w ∨ v.file.between c = false) : Visible w v (v.using comm own br) := by
  intro v₀ ha hf
  rw [← hf] at hw
  have hs := h.intact ha.toIntact hf
  have husing : v₀.using comm own br = v.using comm own br := by
    unfold Volume.using Volume.others
    rw [ha.tree, ha.dirs]
  rw [← husing]
  clear husing hf ha h
  unfold fsTraverse
  refine wp_bind (wp_look (wp_bind (wp_dirCall ?_ ?_)))
  rotate_left
  · exact fun e he => ⟨he, quiet_waited v₀ 1, rfl⟩
  have hq₀ := quiet_waited v₀ 1
  refine wp_then (wp_entryTraverse (hs.intact (hq₀.apart _).toIntact hq₀.file)) ?_ ?_
  rotate_left
  · rintro e v₁ ⟨he, hq, hla⟩
    exact ⟨he, hq₀.trans hq, hla⟩
  rintro l₁ v₁ ⟨hl₁, hq₁, hla₁⟩
  replace hq₁ := hq₀.trans hq₁
  refine wp_then (wp_openTraverse own fun hon => ?_) ?_ ?_
  · rw [hq₁.mem_eq]
    exact hs.dirty (own_eq hon).1 (own_eq hon).2
  rotate_left
  · rintro e v₂ ⟨he, hq, hla⟩
    exact ⟨he, hq₁.trans hq, hla.trans hla₁⟩
  rintro l₂ v₂ ⟨hl₂, hq₂, hla₂⟩
  replace hq₂ := hq₁.trans hq₂
  refine wp_bind (wp_stray hw fun v₃ hq₃ hla₃ hbetween => ?_)
  replace hq₃ := hq₂.trans hq₃
  refine wp_then (wp_openTraverse br fun hon => ?_) ?_ ?_
  · rw [hq₃.mem_eq]
    exact hs.written (own_eq hon).1 (own_eq hon).2 hbetween
  rotate_left
  · rintro e v₄ ⟨he, hq, hla⟩
    exact ⟨he, hq₃.trans hq, hla.trans (hla₃.trans (hla₂.trans hla₁))⟩
  rintro l₄ v₄ ⟨hl₄, hq₄, hla₄⟩
  refine wp_pure ⟨fun b hb => ?_, hq₃.trans hq₄, hla₄.trans (hla₃.trans (hla₂.trans hla₁))⟩
  simp only [List.mem_append]
  rcases mem_using.1 hb with hb | hb | hb | hb
  · exact .inl (.inl (.inl (mem_others.1 hb)))
  · exact .inl (.inl (.inr (hl₁ b hb)))
  · cases hon : v₀.file.dirty && !v₀.file.inlined with
    | true => exact .inl (.inr (hl₂ hon b hb))
    | false => exact .inl (.inl (.inr (hl₁ b (hs.clean hon b hb))))
  · cases hon : v₀.file.writing && !v₀.file.inlined with
    | true => exact .inr (hl₄ hon b hb)
    | false =>
      rw [hs.unwritten hon] at hb
      cases hb

end Boatdash.Lfs
