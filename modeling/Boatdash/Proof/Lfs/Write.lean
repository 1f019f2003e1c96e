import Boatdash.Lib.Overwrite
import Boatdash.Proof.Lfs.Cursor

/-!
# Writing a file in its blocks

`lfs_file_flushedwrite` on a file that is not inline: it starts a new list of blocks from the
blocks of the old version (`Idle`), goes on in it (`Branched`), and takes a new block when the
last one is full. `wp_flushedWriteLoop`: the bytes are written at the position, and the blocks of
the old version stay as they are.
-/

namespace Boatdash.Lfs

open Prog Ruler SkipList Overwrite

variable {c : Config} {v v' : Volume c} {br comm own : List UInt32} {used pend : Finset UInt32}
  {data old xs : List UInt8}

/-! ## Within a block -/

/-- The bytes of one block are side by side. -/
theorem same_block (c : Config) {p k : ℕ} (hp : p + k < 2 ^ 32) (hk : c.placeOf p + k < c.bsize) :
    c.indexOf (p + k) = c.indexOf p ∧ c.placeOf (p + k) = c.placeOf p + k := by
  have hspec := indexOf_spec c (show p < 2 ^ 32 by omega)
  have hsmall := indexOf_lt c (show p < 2 ^ 32 by omega)
  have hhead := head_le_bsize c (i := c.indexOf p) (by omega)
  have hplace := placeOf_eq c (show p < 2 ^ 32 by omega)
  have hstart : start c.bsize 4 (c.indexOf p + 1) =
      start c.bsize 4 (c.indexOf p) + (c.bsize - head 4 (c.indexOf p)) := rfl
  have hsame := indexOf_unique c hp (i := c.indexOf p) (by omega) (by omega)
  have hplace' := placeOf_eq c hp
  rw [hsame] at hplace'
  exact ⟨hsame, by omega⟩

/-- The file is written and the bytes `data` before `pos` are in the blocks `br`; its last block
may be full. -/
structure Branched (c : Config) (v : Volume c) (comm own br : List UInt32) (pend : Finset UInt32)
    (data : List UInt8) : Prop where
  writing : v.file.writing = true
  blocks : v.file.inlined = false
  pos : v.file.pos.toNat = data.length
  nonempty : data ≠ []
  chain : Chain c v.mem br v.file.block v.file.pos
  off : v.file.off.toNat = c.placeOf (data.length - 1) + 1
  holds : Holds c v.mem br data
  shown : Shown v comm own br
  ready : Ready c v.la (v.using comm own br) pend
  fresh : v.file.block ∉ v.using comm own []
  once : v.file.block ∉ br.take (br.length - 1)

/-- The file is not written: the bytes `old` are in the blocks `own`. -/
structure Idle (c : Config) (v : Volume c) (comm own : List UInt32) (old : List UInt8) : Prop where
  writing : v.file.writing = false
  flushed : ∀ b ∈ own, b ∉ v.unflushed
  blocks : v.file.inlined = false
  size : v.file.size.toNat = old.length
  chain : Chain c v.mem own v.file.head v.file.size
  holds : Holds c v.mem own old
  shown : Shown v comm own []
  ready : Ready c v.la (v.using comm own []) ∅

/-- **The bytes are programmed**, and `pos` goes on behind them. -/
theorem AtCursor.written {n : UInt32} (h : AtCursor c v comm own br pend data) (hxs : xs ≠ [])
    (hn : n.toNat = xs.length) (hfit : v.file.off.toNat + xs.length ≤ c.bsize)
    (hsmall : data.length + xs.length < 2 ^ 32)
    (hbytes : ∀ k a, xs[k]? = some a → v.mem v.file.block (v.file.off.toNat + k) = a) :
    Branched c (v.withFile { v.file with pos := v.file.pos + n, off := v.file.off + n })
      comm own br pend (data ++ xs) := by
  have hlen : 0 < xs.length := List.length_pos_iff.2 hxs
  have hoff := h.off
  have hbsize := c.bsize_lt
  have hpos : (v.file.pos + n).toNat = (data ++ xs).length := by
    rw [List.length_append, toNat_add_of_lt (by rw [h.pos, hn]; exact hsmall), h.pos, hn]
  have hblock : ∀ k < xs.length, c.indexOf (data.length + k) = c.indexOf data.length ∧
      c.placeOf (data.length + k) = c.placeOf data.length + k :=
    fun k hk => same_block c (by omega) (by omega)
  have hcount : c.blocksOf (data ++ xs).length = br.length := by
    have hlast := (hblock (xs.length - 1) (by omega)).1
    rw [List.length_append, show data.length + xs.length = data.length + (xs.length - 1) + 1 by omega]
    show c.indexOf (data.length + (xs.length - 1)) + 1 = _
    rw [hlast, h.length]
  have hchain : Chain c v.mem br v.file.block (v.file.pos + n) := by
    refine ⟨h.linked, h.device, by rw [hpos, hcount], fun _ => ?_⟩
    rw [h.length, Nat.add_sub_cancel]
    exact h.last
  refine ⟨h.writing, h.blocks, hpos, fun h0 => hxs (List.append_eq_nil_iff.1 h0).2, hchain, ?_, ?_,
    ?_, ?_, h.fresh, ?_⟩
  · show (v.file.off + n).toNat = _
    rw [toNat_add_of_lt (by rw [hn]; omega), hn, hoff, List.length_append,
      show data.length + xs.length - 1 = data.length + (xs.length - 1) by omega,
      (hblock (xs.length - 1) (by omega)).2]
    omega
  · intro p a ha
    rcases Nat.lt_or_ge p data.length with hlt | hge
    · rw [List.getElem?_append_left hlt] at ha
      exact h.holds p a ha
    · rw [List.getElem?_append_right hge] at ha
      have hk := (List.getElem?_eq_some_iff.1 ha).1
      obtain ⟨hidx, hplace⟩ := hblock (p - data.length) hk
      rw [Nat.add_sub_cancel' hge] at hidx hplace
      refine ⟨v.file.block, by rw [hidx]; exact h.last, ?_⟩
      rw [hplace, ← hoff]
      exact hbytes _ a ha
  · refine h.shown.moved ⟨apart_withFile v _ _, ⟨rfl, rfl, rfl, rfl, rfl, rfl⟩⟩ rfl
      (fun _ _ _ => Or.inl hchain) (fun hoff => ?_) fun b hb => ?_
    · have hon : (v.file.writing && !v.file.inlined) = false := hoff
      rw [h.writing, h.blocks] at hon
      cases hon
    · rw [← h.split] at hb
      rcases List.mem_append.1 hb with hb | hb
      · exact h.shown.outside b (.inr (h.toCursor.take_le hb))
      · rw [List.mem_singleton.1 hb]
        exact outside_of h.fresh
  · refine h.ready.grow fun x hx => ?_
    rw [← h.split] at hx
    rcases List.mem_append.1 hx with hx | hx
    · refine Finset.mem_union_left _ (mem_using.2 (.inr (.inr (.inr ?_))))
      exact h.toCursor.take_le hx
    · rw [List.mem_singleton.1 hx]
      exact h.held
  · rw [h.length, Nat.add_sub_cancel]
    exact h.once

/-! ## A new block -/

/-- A new last block, behind the blocks `l'`. -/
theorem atCursor_of_handed {v₁ : Volume c} {nb : UInt32} {l l' : List UInt32}
    (hhand : Handed c v v₁ (v.using comm own l) pend nb) (hcursor : Cursor c v' (l' ++ [nb]) data)
    (hla : v'.la = v₁.la) (htree : v'.tree = v.tree) (hdirs : v'.dirs = v.dirs)
    (hblock : v'.file.block = nb)
    (hused : ∀ x ∈ l', x ∈ v.using comm own l) (hlen : l'.length = c.indexOf data.length)
    (hshown : Shown v' comm own ((l' ++ [nb]).take (c.blocksOf data.length))) :
    ∃ pend', AtCursor c v' comm own (l' ++ [nb]) pend' data := by
  obtain ⟨pend', -, hnb, hready⟩ := handed_card hhand
  have hbase : v.using comm own [] ⊆ v.using comm own l := using_subset fun x hx => (nomatch hx)
  have husing := using_eq htree hdirs comm own
  refine ⟨pend', hcursor, hshown, ?_, ?_, ?_, ?_⟩
  · rw [husing, hla]
    refine hready.grow fun x hx => ?_
    rcases List.mem_append.1 (List.mem_of_mem_take hx) with hx | hx
    · exact Finset.mem_union_left _ (hused x hx)
    · rw [List.mem_singleton.1 hx]
      exact Finset.mem_union_right _ hnb
  · rw [husing, hblock]
    exact fun hx => hhand.unused (hbase hx)
  · rw [List.take_left' hlen, hblock]
    exact fun hx => hhand.unused (hused nb hx)
  · rw [hblock]
    exact Finset.mem_union_right _ hnb

/-- **The file goes on in a new block**, behind the blocks `blk` of the bytes `data`. -/
theorem wp_extendFile (blk : List UInt32) {l : List UInt32} (hin : v.file.inlined = false)
    (hpos : v.file.pos.toNat = data.length) (hch : Chain c v.mem blk v.file.block v.file.pos)
    (hholds : Holds c v.mem blk data) (hshown : Shown v comm own l)
    (hready : Ready c v.la (v.using comm own l) pend)
    (hsub : ∀ x ∈ blk, x ∈ v.using comm own l) (hout : ∀ x ∈ blk, x ∉ v.dirs) (hbetween : v.file.between c = false) :
    wp v.env.Bad extendFile
      (fun _ v' => ∃ br pend', AtCursor c v' comm own br pend' data ∧
        Moved (v.using comm own []) v v')
      (Fails v comm) v := by
  have hlt : data.length < 2 ^ 32 := by rw [← hpos]; exact v.file.pos.toNat_lt
  have hbase : v.using comm own [] ⊆ v.using comm own l := using_subset fun x hx => (nomatch hx)
  have hq : Quiet v (v.withLa (v.la.map (allocCkpoint c))) := quiet_withLa (Quiet.refl v) _
  unfold extendFile
  refine wp_bind (wp_volCkpoint (wp_bind (wp_look ?_)))
  have hext := wp_ctzExtend (v := v.withLa (v.la.map (allocCkpoint c))) (w := v.env.Bad) hready.checked
    ((visible_of hshown (.inr hbetween)).quiet hq) hch hsub
  refine wp_then hext ?_ fun e v' he => (he.fails base_subset).after (hq.apart _).toIntact
  rintro ⟨nb, off⟩ v₁ ⟨hhand, hoff, hgrown⟩
  refine wp_setFile ?_
  have hfile : v₁.file = v.file := hhand.file
  rw [hpos] at hoff hgrown
  have ha : Apart ↑(v.using comm own []) v v₁ := by
    refine (hq.apart _).trans (hhand.toApart.mono (Finset.coe_subset.2 ?_))
    exact hbase.trans Finset.subset_union_left
  have htake : (blk.take (c.indexOf data.length)).length = c.indexOf data.length := by
    have hlen := hch.length
    rw [hpos] at hlen
    rw [List.length_take, hlen]
    cases hdata : data.length with
    | zero =>
      rw [indexOf_zero]
      exact Nat.min_eq_left (Nat.zero_le _)
    | succ n =>
      have hnext := next_place c (show n + 1 < 2 ^ 32 by rw [← hdata]; exact hlt)
      show min (c.indexOf (n + 1)) (c.indexOf n + 1) = _
      omega
  set f : File := { v₁.file with block := nb, off := off, writing := true } with hf
  have hcursor : Cursor c (v₁.withFile f) (blk.take (c.indexOf data.length) ++ [nb]) data := by
    refine ⟨rfl, ?_, ?_, hgrown.linked, ?_, ?_, ?_, hoff, hgrown.holds data rfl hholds⟩
    · show v₁.file.inlined = false
      rw [hfile]
      exact hin
    · show v₁.file.pos.toNat = _
      rw [hfile]
      exact hpos
    · intro x hx
      rcases List.mem_append.1 hx with hx | hx
      · exact hch.device x (List.mem_of_mem_take hx)
      · rw [List.mem_singleton.1 hx]
        exact hhand.device
    · rw [List.length_append, htake]
      rfl
    · rw [List.getElem?_append_right (by rw [htake]), htake, Nat.sub_self]
      rfl
  have hkin : v.file.Kin f := by
    rw [hf, hfile]
    exact ⟨rfl, rfl, rfl, rfl, rfl, rfl⟩
  have hm : Moved (v.using comm own []) v (v₁.withFile f) := ⟨ha.trans (apart_withFile v₁ f _), hkin⟩
  have hshown' : Shown (v₁.withFile f) comm own
      ((blk.take (c.indexOf data.length) ++ [nb]).take (c.blocksOf data.length)) := by
    refine hshown.moved hm ?_ (fun _ _ => hcursor.walked) (fun hoff => ?_) fun b hb => ?_
    · show v₁.file.inlined = _
      rw [hfile]
    · rw [hcursor.writing, hcursor.blocks] at hoff
      cases hoff
    · rcases List.mem_append.1 (List.mem_of_mem_take hb) with hb | hb
      · exact hout b (List.mem_of_mem_take hb)
      · rw [List.mem_singleton.1 hb]
        exact outside_of hhand.unused
  obtain ⟨pend', hat⟩ := atCursor_of_handed hhand hcursor rfl hm.tree hm.dirs rfl
    (fun x hx => hsub x (List.mem_of_mem_take hx)) htake hshown'
  exact ⟨_, pend', hat, hm⟩

/-- The first bytes of a file are in its first blocks. -/
theorem Chain.take {mem : UInt32 → ℕ → UInt8} {blk : List UInt32} {top b size p : UInt32}
    (h : Chain c mem blk top size) (hp : p ≠ 0) (hle : p.toNat ≤ size.toNat)
    (hb : blk[c.indexOf (p.toNat - 1)]? = some b) :
    Chain c mem (blk.take (c.blocksOf p.toNat)) b p := by
  have hpos : p.toNat ≠ 0 := fun h0 => hp (UInt32.toNat_inj.1 h0)
  have hcount : c.blocksOf p.toNat = c.indexOf (p.toNat - 1) + 1 := by
    obtain ⟨n, hn⟩ := Nat.exists_eq_succ_of_ne_zero hpos
    rw [hn]
    rfl
  have hlen : (blk.take (c.blocksOf p.toNat)).length = c.blocksOf p.toNat := by
    rw [List.length_take, h.length]
    exact Nat.min_eq_left (blocksOf_mono c hle size.toNat_lt)
  refine ⟨h.linked.take _, fun x hx => h.device x (List.mem_of_mem_take hx), hlen, fun _ => ?_⟩
  rw [hlen, hcount, Nat.add_sub_cancel, List.getElem?_take, if_pos (Nat.lt_succ_self _)]
  exact hb

/-- There is room in the last block. -/
theorem Branched.cursor (h : Branched c v comm own br pend data) (hoff : v.file.off ≠ c.blockSize) :
    AtCursor c v comm own br pend data := by
  have hlen : 0 < data.length := List.length_pos_iff.2 h.nonempty
  have hlt : data.length < 2 ^ 32 := by rw [← h.pos]; exact v.file.pos.toNat_lt
  have hne : v.file.off.toNat ≠ c.bsize := fun h0 => hoff (UInt32.toNat_inj.1 h0)
  have hcount : c.blocksOf data.length = c.indexOf (data.length - 1) + 1 := by
    obtain ⟨n, hn⟩ := Nat.exists_eq_succ_of_ne_zero (show data.length ≠ 0 by omega)
    rw [hn]
    rfl
  have hbr := h.chain.length
  rw [h.pos] at hbr
  have hlast : v.file.pos ≠ 0 := fun h0 => by
    have hpos := h.pos
    rw [h0] at hpos
    exact absurd hpos (by show 0 ≠ _; omega)
  have htop := h.chain.last hlast
  have hnext := next_place c (show data.length - 1 + 1 < 2 ^ 32 by omega)
  rw [show data.length - 1 + 1 = data.length by omega] at hnext
  rcases hnext with ⟨-, hsame, hplace⟩ | ⟨hfull, -, -⟩
  · have hvis : br.take (c.blocksOf data.length) = br := by rw [← hbr, List.take_length]
    have hidx : br.length - 1 = c.indexOf data.length := by omega
    rw [hidx] at htop
    have honce := h.once
    rw [hidx] at honce
    have hcursor : Cursor c v br data := ⟨h.writing, h.blocks, h.pos, h.chain.linked,
      h.chain.device, by omega, htop, by rw [h.off, hplace], h.holds⟩
    refine ⟨hcursor, by rw [hvis]; exact h.shown, by rw [hvis]; exact h.ready, h.fresh, honce, ?_⟩
    rw [hvis]
    exact Finset.mem_union_left _ (mem_using.2 (.inr (.inr (.inr hcursor.mem_block))))
  · exact absurd (h.off.trans hfull) hne

/-- The file is ready to be written behind the bytes `data`. -/
inductive Writable (c : Config) (v : Volume c) (comm own : List UInt32) (old : List UInt8) :
    List UInt8 → Prop
  | idle (h : Idle c v comm own old) (hpos : v.file.pos.toNat ≤ old.length) :
    Writable c v comm own old (old.take v.file.pos.toNat)
  | branched {br : List UInt32} {pend : Finset UInt32} {data : List UInt8}
    (h : Branched c v comm own br pend data) : Writable c v comm own old data
  | cursor {br : List UInt32} {pend : Finset UInt32} {data : List UInt8}
    (h : AtCursor c v comm own br pend data) : Writable c v comm own old data

/-- A file that is not written is not between two of its blocks. -/
theorem between_of {f : File} (h : f.writing = false) : f.between c = false := by
  unfold File.between
  rw [h]
  rfl

/-- A file in its cache is not. -/
theorem between_inline {f : File} (h : f.inlined = true) : f.between c = false := by
  unfold File.between
  rw [h, Bool.not_true, Bool.and_false]
  rfl

/-- **From the old version**: the new list of blocks starts with those before `pos`. -/
theorem wp_nextIdle (h : Idle c v comm own old) (hpos : v.file.pos.toNat ≤ old.length) :
    wp v.env.Bad (do findLast; extendFile)
      (fun _ v' => ∃ br pend, AtCursor c v' comm own br pend (old.take v.file.pos.toNat) ∧
        Moved (v.using comm own []) v v')
      (Fails v comm) v := by
  have hsize := h.size
  have hlen : v.file.pos.toNat = (old.take v.file.pos.toNat).length := by
    rw [List.length_take]
    omega
  have hown : ∀ x ∈ own, x ∈ v.using comm own [] :=
    fun x hx => mem_using.2 (.inr (.inr (.inl hx)))
  have hshown : ∀ v₁ : Volume c, Moved (v.using comm own []) v v₁ →
      v₁.file.inlined = v.file.inlined → v₁.file.writing = v.file.writing →
      Shown v₁ comm own [] := by
    intro v₁ hm hin hwriting
    refine h.shown.moved hm hin (fun hon => ?_) (fun _ => rfl) fun b hb => (nomatch hb)
    rw [hwriting, h.writing] at hon
    cases hon
  unfold findLast
  refine wp_bind (wp_bind (wp_look ?_))
  simp only
  by_cases hzero : v.file.pos = 0
  · rw [h.writing, hzero, if_neg (by decide)]
    refine wp_pure ?_
    rw [hzero] at hlen
    refine wp_extendFile [] h.blocks (by rw [hzero]; exact hlen) ?_ ?_ h.shown h.ready
      (fun x hx => (nomatch hx)) (fun x hx => (nomatch hx)) (between_of h.writing)
    · rw [hzero]
      exact chain_nil _ _
    · exact fun p a ha => by simp [show (0 : UInt32).toNat = 0 from rfl] at ha
  · have hposnat : v.file.pos.toNat ≠ 0 := fun h0 => hzero (UInt32.toNat_inj.1 h0)
    have hpos0 : 0 < v.file.pos := UInt32.lt_iff_toNat_lt.2 (by show 0 < _; omega)
    have hsub : (v.file.pos - 1).toNat = v.file.pos.toNat - 1 :=
      UInt32.toNat_sub_of_le _ _ (UInt32.le_iff_toNat_le.2 (by show 1 ≤ _; omega))
    rw [h.writing, if_pos (by simp [hpos0])]
    refine wp_then (wp_ctzFind h.chain (UInt32.lt_iff_toNat_lt.2 (by omega))) ?_ ?_
    rotate_left
    · rintro e v' ⟨he, n, rfl⟩
      exact fails_waited (he.errs rfl)
    rintro ⟨b, _⟩ v₁ ⟨hb, -, n, -, rfl⟩
    refine wp_setFile ?_
    rw [hsub] at hb
    set v₂ := (v.waited n).withFile { (v.waited n).file with block := b } with hv₂
    have hm : Moved (v.using comm own []) v v₂ :=
      ⟨((quiet_waited v n).apart _).trans (apart_withFile _ _ _), ⟨rfl, rfl, rfl, rfl, rfl, rfl⟩⟩
    have husing := using_eq hm.tree hm.dirs comm own []
    have hholds : Holds c v₂.mem (own.take (c.blocksOf v.file.pos.toNat))
        (old.take v.file.pos.toNat) :=
      h.holds.take (by rw [← hsize]; exact v.file.size.toNat_lt) (by omega)
    have hready : Ready c v₂.la (v₂.using comm own []) ∅ := by
      rw [husing]
      exact h.ready
    have hchain : Chain c v₂.mem (own.take (c.blocksOf v.file.pos.toNat)) b v₂.file.pos :=
      h.chain.take hzero (show v.file.pos.toNat ≤ _ by omega) hb
    have hext := wp_extendFile (v := v₂) _ h.blocks hlen hchain hholds (hshown v₂ hm rfl rfl) hready
      (fun x hx => by rw [husing]; exact hown x (List.mem_of_mem_take hx))
      (fun x hx => h.shown.outside x (.inl (List.mem_of_mem_take hx))) (between_of h.writing)
    refine wp_mono hext ?_ fun e v' he => he.after hm.base
    rintro - v' ⟨br, pend, hat, hm'⟩
    rw [husing] at hm'
    exact ⟨br, pend, hat, hm.trans hm'⟩

theorem AtCursor.off_ne (h : AtCursor c v comm own br pend data) : v.file.off ≠ c.blockSize := by
  intro h0
  have hlt := h.off_lt
  rw [h0] at hlt
  exact absurd hlt (Nat.lt_irrefl _)

/-- Behind a byte that was written a traversal finds the blocks. -/
theorem Branched.between (h : Branched c v comm own br pend data) : v.file.between c = false := by
  have hlen : 0 < data.length := List.length_pos_iff.2 h.nonempty
  have hpos := h.pos
  have hsub : (v.file.pos - 1).toNat = data.length - 1 := by
    rw [UInt32.toNat_sub_of_le _ _ (UInt32.le_iff_toNat_le.2 (by show 1 ≤ _; omega)), hpos]
    rfl
  have hplace := (ctzIndex_eq c (v.file.pos - 1)).2
  have hlt := v.file.off.toNat_lt
  have hoff : (ctzIndex c (v.file.pos - 1)).2 + 1 = v.file.off := by
    refine UInt32.toNat_inj.1 ?_
    rw [toNat_add_of_lt, hplace, hsub, h.off]
    · rfl
    · rw [hplace, hsub, show (1 : UInt32).toNat = 1 from rfl, ← h.off]
      exact hlt
  unfold File.between
  rw [hoff, bne_self_eq_false, Bool.and_false]

/-- **A new block, if one is needed.** -/
theorem wp_nextBlock (h : Writable c v comm own old data) :
    wp v.env.Bad nextBlock
      (fun _ v' => ∃ br pend, AtCursor c v' comm own br pend data ∧
        Moved (v.using comm own []) v v')
      (Fails v comm) v := by
  unfold nextBlock
  refine wp_bind (wp_look ?_)
  cases h with
  | idle h hpos =>
    rw [h.writing, if_pos (by rfl), h.blocks]
    exact wp_nextIdle h hpos
  | @branched br pend _ h =>
    rw [h.writing, h.blocks]
    by_cases hoff : v.file.off = c.blockSize
    · rw [if_pos (by simp [hoff])]
      refine wp_bind ?_
      unfold findLast
      refine wp_bind (wp_look ?_)
      simp only
      rw [h.writing, if_neg (by simp)]
      refine wp_pure ?_
      exact wp_extendFile br h.blocks h.pos h.chain h.holds h.shown h.ready
        (fun x hx => mem_using.2 (.inr (.inr (.inr hx)))) (fun x hx => h.shown.outside x (.inr hx))
        h.between
    · rw [if_neg (by simp [hoff])]
      exact wp_pure ⟨br, pend, h.cursor hoff, Moved.refl _ v⟩
  | @cursor br pend _ h =>
    rw [h.writing, if_neg (by simp [h.off_ne])]
    exact wp_pure ⟨br, pend, h, Moved.refl _ v⟩

/-! ## A chunk of data -/

/-- The mark on the file is no other error. -/
theorem wp_marked {α : Type} {w : Prop} {m : Code c α} {Q : α → Volume c → Prop}
    {E : Stop → Volume c → Prop} (hE : ∀ e v' f, E e v' → E e (v'.withFile f))
    (h : wp w m Q E v) : wp w (orErred m) Q E v := by
  unfold orErred
  refine wp_bind (wp_attempt (wp_mono h ?_ ?_))
  · exact fun a v' ha => wp_pure ha
  · intro e v' he
    exact wp_bind (wp_setFile (wp_fail (hE e v' _ he)))

theorem wp_orErred {α : Type} {w : Prop} {m : Code c α} {Q : α → Volume c → Prop} {v₀ : Volume c}
    (h : wp w m Q (Fails v₀ comm) v) : wp w (orErred m) Q (Fails v₀ comm) v :=
  wp_marked (fun _ _ f he => he.withFile f) h

/-- The bytes are in the block, and what was there before `off` still is. -/
theorem AtCursor.programmed (h : AtCursor c v comm own br pend data) (xs : List UInt8) :
    ∃ br', AtCursor c ((v.waited 1).withMem v.file.block (setBytes v.mem v.file.block v.file.off.toNat xs))
      comm own br' pend data := by
  have ho := only_setBytes v v.file.block v.file.off.toNat 1 xs
  refine h.move (h.device _ h.mem_block) (ho.outside h.fresh) (fun x hx => ?_) (fun j hj => ?_) ?_
    h.ready h.fresh h.once h.held
  · exact ho.mem_eq fun hxb => h.once (hxb ▸ hx)
  · exact setBytes_below hj
  · exact (File.same h.writing).symm

theorem Branched.checked (h : Branched c v comm own br pend data) :
    Branched c (v.withLa (v.la.map (allocCkpoint c))) comm own br ∅ data := by
  have hq : Quiet v (v.withLa (v.la.map (allocCkpoint c))) := quiet_withLa (Quiet.refl v) _
  exact ⟨h.writing, h.blocks, h.pos, h.nonempty, h.chain, h.off, h.holds,
    h.shown.intact (hq.apart _).toIntact rfl, h.ready.checked, h.fresh, h.once⟩

/-- **One round**: as much of the data as the block has room for. -/
theorem wp_writeChunk (h : Writable c v comm own old data) (hxs : xs ≠ [])
    (hsmall : data.length + xs.length < 2 ^ 32) :
    wp v.env.Bad (writeChunk xs)
      (fun n v' => 0 < n ∧ n ≤ xs.length ∧
        (∃ br, Branched c v' comm own br ∅ (data ++ xs.take n)) ∧ Moved (v.using comm own []) v v')
      (Fails v comm) v := by
  have hlen : 0 < xs.length := List.length_pos_iff.2 hxs
  unfold writeChunk
  refine wp_then (wp_orErred (wp_nextBlock h)) ?_ fun e v' he => he
  rintro - v₁ ⟨br, pend, hat, hm₁⟩
  have husing := using_eq hm₁.tree hm₁.dirs comm own []
  have hoff := hat.off_lt
  have hdiff : (c.blockSize - v₁.file.off).toNat = c.bsize - v₁.file.off.toNat :=
    UInt32.toNat_sub_of_le _ _ (UInt32.le_iff_toNat_le.2 hoff.le)
  have hn : (min (.ofNat xs.length) (c.blockSize - v₁.file.off)).toNat =
      min xs.length (c.bsize - v₁.file.off.toNat) := by
    rw [UInt32.toNat_min, hdiff, UInt32.toNat_ofNat_of_lt' (by unfold UInt32.size; omega)]
  refine wp_bind (wp_look ?_)
  simp only
  set n := min (.ofNat xs.length) (c.blockSize - v₁.file.off)
  have htake : (xs.take n.toNat).length = n.toNat := by
    rw [List.length_take]
    omega
  have hprog := wp_progFile (xs.take n.toNat) (c.count + 1) v₁ br pend hat (by omega)
  rw [hm₁.env] at hprog
  refine wp_then (wp_orErred hprog) ?_ fun e v' he => he.after hm₁.base
  rintro - v₃ ⟨v₂, br₂, pend₂, hat₂, hm₂, rfl⟩
  rw [husing] at hm₂
  have husing₂ := using_eq (hm₁.trans hm₂).tree (hm₁.trans hm₂).dirs comm own []
  obtain ⟨br₃, hat₃⟩ := hat₂.programmed (xs.take n.toNat)
  have hfresh := hat₂.fresh
  rw [husing₂] at hfresh
  have ho := (only_setBytes v₂ v₂.file.block v₂.file.off.toNat 1 (xs.take n.toNat)).outside hfresh
  have hm₃ := (hm₁.trans hm₂).trans ⟨ho, File.Kin.refl _⟩
  have hoff₂ : v₂.file.off.toNat = v₁.file.off.toNat := by rw [hat₂.off, hat.off]
  have hsome : xs.take n.toNat ≠ [] := fun h0 => by
    rw [h0] at htake
    exact absurd htake (by show 0 ≠ _; omega)
  have hwritten := hat₃.written (n := n) hsome htake.symm
    (by rw [htake]; show v₂.file.off.toNat + _ ≤ _; omega) (by omega)
    (fun k a hk => setBytes_at hk)
  refine wp_bind (wp_setFile (wp_bind (wp_volCkpoint (wp_pure ?_))))
  refine ⟨by omega, by omega, ⟨br₃, hwritten.checked⟩, hm₃.trans ?_⟩
  exact ⟨(apart_withFile _ _ _).trans ((quiet_withLa (Quiet.refl _) _).apart _),
    ⟨rfl, rfl, rfl, rfl, rfl, rfl⟩⟩

/-- **The loop** writes all of it. -/
theorem wp_flushedWriteLoop (k : ℕ) (xs data : List UInt8) (v : Volume c)
    (h : Writable c v comm own old data) (hxs : xs ≠ []) (hk : xs.length ≤ k)
    (hsmall : data.length + xs.length < 2 ^ 32) :
    wp v.env.Bad (flushedWriteLoop k xs)
      (fun _ v' => (∃ br, Branched c v' comm own br ∅ (data ++ xs)) ∧
        Moved (v.using comm own []) v v')
      (Fails v comm) v := by
  induction k generalizing xs data v with
  | zero => exact absurd (List.eq_nil_of_length_eq_zero (Nat.le_zero.1 hk)) hxs
  | succ k ih =>
    obtain ⟨x, rest, rfl⟩ := List.exists_cons_of_ne_nil hxs
    unfold flushedWriteLoop
    refine wp_then (wp_writeChunk h hxs hsmall) ?_ fun e v' he => he
    rintro n v₁ ⟨hpos, hle, ⟨br, hbr⟩, hm⟩
    have hsplit := List.take_append_drop n (x :: rest)
    have hdrop := List.length_drop (i := n) (l := x :: rest)
    by_cases hall : (x :: rest).drop n = []
    · rw [hall] at hsplit ⊢
      rw [List.append_nil] at hsplit
      rw [hsplit] at hbr
      unfold flushedWriteLoop
      exact wp_pure ⟨⟨br, hbr⟩, hm⟩
    · have hlen : (data ++ (x :: rest).take n).length = data.length + n := by
        rw [List.length_append, List.length_take, Nat.min_eq_left hle]
      have hrest := ih ((x :: rest).drop n) (data ++ (x :: rest).take n) v₁ (.branched hbr) hall
        (by omega) (by omega)
      rw [using_eq hm.tree hm.dirs, hm.env, List.append_assoc, hsplit] at hrest
      refine wp_mono hrest ?_ fun e v' he => he.after hm.base
      rintro - v' ⟨hbr', hm'⟩
      exact ⟨hbr', hm.trans hm'⟩

end Boatdash.Lfs
