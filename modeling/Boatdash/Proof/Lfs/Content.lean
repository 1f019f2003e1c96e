import Boatdash.Proof.Lfs.Write

/-!
# What an open file contains

An open file has its bytes in the cache (`InCache`), in the blocks of its version (`Idle`), or in
new blocks as far as it is written and in the old ones from there on (`Branched`). `Stands` is all
of them: `wp_flushedWrite`: **`lfs_file_flushedwrite` writes the bytes at the position, over what
is there, and through any number of bad blocks**, from whichever the file is in into whichever it
has to be in.
-/

namespace Boatdash.Lfs

open Prog Ruler SkipList Overwrite

variable {c : Config} {v v' : Volume c} {comm own : List UInt32} {bytes old xs : List UInt8}

/-! ## Inline files -/

/-- The bytes of an inline file are in its cache. -/
structure InCache (c : Config) (v : Volume c) (comm : List UInt32) (bytes : List UInt8) : Prop where
  inlined : v.file.inlined = true
  at_pos : v.file.writing = true → v.file.off = v.file.pos ∧ v.file.pos ≠ 0
  bytes_eq : bytesAt v.file.cacheMem 0 0 v.file.fileSize.toNat = bytes
  fits : v.file.fileSize ≤ v.lim.inlineMax
  shown : Shown v comm [] []
  ready : Ready c v.la (v.using comm [] []) ∅

/-- An inline file is much smaller than a block. -/
theorem inlineMax_lt (lim : Limits c) : 8 * lim.inlineMax.toNat ≤ c.bsize := by
  have hle := UInt32.le_iff_toNat_le.1 lim.inline_block
  rw [UInt32.toNat_div] at hle
  have hmul := Nat.mul_div_le c.bsize 8
  have heq : c.blockSize.toNat / (8 : UInt32).toNat = c.bsize / 8 := rfl
  omega

theorem InCache.length (h : InCache c v comm bytes) : bytes.length = v.file.fileSize.toNat := by
  rw [← h.bytes_eq, length_bytesAt]

/-- The size of a file, without its flags. -/
theorem toNat_fileSize (f : File) : f.fileSize.toNat =
    if f.writing then max f.pos.toNat f.size.toNat else f.size.toNat := by
  unfold File.fileSize
  cases f.writing with
  | true => exact UInt32.toNat_max ..
  | false => rfl

theorem size_le_fileSize (f : File) : f.size.toNat ≤ f.fileSize.toNat := by
  rw [toNat_fileSize]
  split
  · exact Nat.le_max_right ..
  · exact Nat.le_refl _

/-- The bytes before `pos` in a block, as they were in the cache. -/
theorem InCache.outlined (h : InCache c v comm bytes) (hpos : v.file.pos.toNat ≤ bytes.length)
    {nb : UInt32} (hdev : nb < c.blockCount)
    (hcopy : ∀ j < v.file.pos.toNat, v'.mem nb j = v.file.cache j)
    (hfile : v'.file =
      { v.file with off := v.file.pos, block := nb, writing := true, inlined := false }) :
    Cursor c v' ([] ++ [nb]) (bytes.take v.file.pos.toNat) := by
  have hlim := inlineMax_lt v.lim
  have hfits := UInt32.le_iff_toNat_le.1 h.fits
  have hlen := h.length
  have hbsize := c.bsize_ge
  have hdata : (bytes.take v.file.pos.toNat).length = v.file.pos.toNat := by
    rw [List.length_take]
    omega
  obtain ⟨hidx, hplace⟩ := first_block c (show v.file.pos.toNat < c.bsize by omega)
  refine ⟨by rw [hfile], by rw [hfile], by rw [hfile, hdata],
    linked_snoc linked_nil fun h0 => absurd rfl h0, ?_, ?_, ?_, ?_, ?_⟩
  · intro x hx
    rw [List.mem_singleton.1 hx]
    exact hdev
  · rw [hdata, hidx]
    rfl
  · rw [hdata, hidx, hfile]
    rfl
  · rw [hdata, hplace, hfile]
  · intro p a ha
    rw [List.getElem?_take] at ha
    split at ha
    · rename_i hp
      obtain ⟨hidx, hplace⟩ := first_block c (show p < c.bsize by omega)
      refine ⟨nb, by rw [hidx]; rfl, ?_⟩
      rw [hplace, hcopy p hp]
      rw [← h.bytes_eq, getElem?_bytesAt (by omega), Nat.zero_add] at ha
      exact Option.some.inj ha
    · cases ha

/-- The file that left its directory in a traversal: what it was there is no list of blocks. -/
theorem InCache.shown_outlined (h : InCache c v comm bytes) {br : List UInt32}
    (hm : Moved (v.using comm [] []) v v') (hwriting : v'.file.writing = true)
    (hblocks : v'.file.inlined = false) (hout : ∀ b ∈ br, b ∉ v.dirs)
    (hwalked : v'.file.between c = false → Walked c v'.mem br v'.file.block v'.file.pos) :
    Shown v' comm [] br := by
  have hlim := inlineMax_lt v.lim
  have hfits := UInt32.le_iff_toNat_le.1 h.fits
  have hbsize := c.bsize_ge
  refine ⟨?_, ?_, fun _ _ => Or.inr ⟨rfl, ?_⟩, fun _ b hb => (nomatch hb), fun _ _ => hwalked, ?_, ?_⟩
  · intro head size he
    rw [hm.entry] at he
    exact (h.shown.entry head size he).congr
      fun b hb => hm.mem b (Finset.mem_coe.2 (mem_using.2 (.inr (.inl hb))))
  · rw [hm.entry]
    exact h.shown.inline
  · have hle := size_le_fileSize v.file
    rw [hm.kin.size]
    cases hs : v.file.size.toNat with
    | zero => exact Nat.zero_le _
    | succ n =>
      show c.indexOf n + 1 ≤ 1
      rw [(first_block c (show n < c.bsize by omega)).1]
  · rw [hwriting, hblocks]
    exact fun hoff => (nomatch hoff)
  · rw [hm.dirs]
    exact fun b hb => hb.elim (fun hb => (nomatch hb)) (hout b)

/-- **The file leaves its directory**: the bytes before `pos` go into a block. -/
theorem wp_fileOutline (h : InCache c v comm bytes) (hpos : v.file.pos.toNat ≤ bytes.length) :
    wp v.env.Bad fileOutline
      (fun _ v' => ∃ br pend, AtCursor c v' comm [] br pend (bytes.take v.file.pos.toNat) ∧
        Moved (v.using comm [] []) v v')
      (Fails v comm) v := by
  have hlim := inlineMax_lt v.lim
  have hfits := UInt32.le_iff_toNat_le.1 h.fits
  have hlen := h.length
  have hbsize := c.bsize_ge
  have hsmall : v.file.pos.toNat < c.bsize := by omega
  unfold fileOutline
  refine wp_bind (wp_setFile (wp_bind (wp_volCkpoint ?_)))
  set v₀ := (v.withFile { v.file with off := v.file.pos }).withLa (v.la.map (allocCkpoint c)) with hv₀
  have hm₀ : Moved (v.using comm [] []) v v₀ :=
    ⟨(apart_withFile _ _ _).trans ((quiet_withLa (Quiet.refl _) _).apart _),
      ⟨rfl, rfl, rfl, rfl, rfl, rfl⟩⟩
  have hinlined : v₀.file.inlined = true := h.inlined
  have hshown₀ : Shown v₀ comm [] [] := by
    refine h.shown.moved hm₀ rfl (fun _ hin => ?_) (fun _ => rfl) fun b hb => (nomatch hb)
    rw [hinlined] at hin
    cases hin
  have hready₀ : Ready c v₀.la (v.using comm [] []) ∅ := h.ready.checked
  have hreloc := wp_fileRelocate hready₀ (w := v.env.Bad)
    (visible_of hshown₀ (.inr (between_inline h.inlined)))
    (fun hin => by rw [hinlined] at hin; cases hin) hsmall.le
  refine wp_then hreloc ?_ fun e v' he => (he.fails (Finset.Subset.refl _)).after hm₀.toIntact
  rintro - v' ⟨v₁, nb, hhand, hcopy, rfl⟩
  refine wp_setFile ?_
  have hbase : (↑(v.using comm [] []) : Set UInt32) ⊆ ↑(v.using comm [] [] ∪ ∅) :=
    Finset.coe_subset.2 Finset.subset_union_left
  set v₂ := (v₁.withFile { v₀.file with block := nb, writing := true }).withFile
    { v₀.file with block := nb, writing := true, inlined := false } with hv₂
  have hm : Moved (v.using comm [] []) v v₂ :=
    hm₀.trans ⟨(hhand.toApart.mono hbase).trans ((apart_withFile _ _ _).trans (apart_withFile _ _ _)),
      ⟨rfl, rfl, rfl, rfl, rfl, rfl⟩⟩
  have hcurrent : v₀.current = v.file.cache := if_pos h.inlined
  rw [hcurrent] at hcopy
  have hcursor : Cursor c v₂ ([] ++ [nb]) (bytes.take v.file.pos.toNat) :=
    h.outlined hpos hhand.device hcopy rfl
  have hshown := h.shown_outlined hm rfl rfl (fun b hb => ?_) hcursor.walked
  rotate_left
  · rw [List.mem_singleton.1 (List.mem_of_mem_take hb)]
    exact outside_of hhand.unused
  have hdata : (bytes.take v.file.pos.toNat).length = v.file.pos.toNat := by
    rw [List.length_take]
    omega
  obtain ⟨pend', hat⟩ := atCursor_of_handed (v := v₀) (l := []) hhand hcursor rfl hm.tree hm.dirs rfl
    (fun x hx => (nomatch hx)) (by rw [hdata, (first_block c hsmall).1]; rfl) hshown
  exact ⟨_, pend', hat, hm⟩

/-- An inline file that is written goes on at `pos`. -/
theorem wp_nextInline {w : Prop} {E : Stop → Volume c → Prop} (h : InCache c v comm bytes) :
    wp w nextBlock
      (fun _ v' => ∃ b, v' = v.withFile { v.file with block := b, off := v.file.pos, writing := true })
      E v := by
  unfold nextBlock
  refine wp_bind (wp_look ?_)
  by_cases hnew : (!v.file.writing || v.file.off == c.blockSize) = true
  · rw [if_pos hnew, if_pos h.inlined]
    exact wp_setFile ⟨_, rfl⟩
  · rw [if_neg hnew]
    refine wp_pure ⟨v.file.block, ?_⟩
    rw [Bool.or_eq_true, not_or] at hnew
    have hwriting : v.file.writing = true := by simpa using hnew.1
    obtain ⟨hoff, -⟩ := h.at_pos hwriting
    rw [← hoff, ← hwriting]
    rfl

/-- The bytes in the cache. -/
theorem wp_progInline {w : Prop} {E : Stop → Volume c → Prop} {k : ℕ}
    (hin : v.file.inlined = true) :
    wp w (progFile xs (k + 1))
      (fun _ v' => v' = v.withFile { v.file with
        cache := setBytes v.file.cacheMem v.file.block v.file.off.toNat xs v.file.block }) E v := by
  unfold progFile
  refine wp_bind ?_
  unfold fileProg
  refine wp_bind (wp_look ?_)
  rw [if_pos hin]
  exact wp_bind (wp_setFile (wp_pure (wp_pure rfl)))

/-- Bytes that were put into a cache. -/
theorem bytesAt_cache {cache : ℕ → UInt8} {b : UInt32} {n p m : ℕ} (hp : p ≤ n)
    (hm : m = max n (p + xs.length)) :
    bytesAt (fun _ => setBytes (fun _ => cache) b p xs b) 0 0 m =
      put (bytesAt (fun _ => cache) 0 0 n) p xs := by
  have hlen := length_bytesAt (fun _ => cache) 0 0 n
  apply List.ext_getElem?
  intro i
  rw [getElem?_put (by rw [hlen]; exact hp)]
  by_cases hi : i < m
  · rw [getElem?_bytesAt hi, Nat.zero_add]
    by_cases hin : p ≤ i ∧ i < p + xs.length
    · rw [if_pos hin]
      unfold setBytes
      rw [if_pos ⟨rfl, hin.1⟩, List.getElem?_eq_getElem (by omega), Option.getD_some]
    · rw [if_neg hin, getElem?_bytesAt (by omega), Nat.zero_add]
      unfold setBytes
      split
      · rw [List.getElem?_eq_none (by omega), Option.getD_none]
      · rfl
  · rw [List.getElem?_eq_none (by rw [length_bytesAt]; omega), if_neg (by omega),
      List.getElem?_eq_none (by rw [hlen]; omega)]

/-- **A chunk that fits** goes into the cache. -/
theorem wp_writeInline {w : Prop} (h : InCache c v comm bytes) (hxs : xs ≠ [])
    (hpos : v.file.pos.toNat ≤ bytes.length)
    (hroom : v.file.pos.toNat + xs.length ≤ v.lim.inlineMax.toNat) :
    wp w (writeChunk xs)
      (fun n v' => n = xs.length ∧ InCache c v' comm (put bytes v.file.pos.toNat xs) ∧
        v'.file.pos.toNat = v.file.pos.toNat + xs.length ∧ v'.file.writing = true ∧
        Moved (v.using comm [] []) v v')
      (Fails v comm) v := by
  have hlim := inlineMax_lt v.lim
  have hbsize := c.bsize_ge
  have hword := c.bsize_lt
  have hlen := h.length
  have hsome : 0 < xs.length := List.length_pos_iff.2 hxs
  unfold writeChunk
  refine wp_then (wp_orErred (wp_nextInline h)) ?_ fun e v' he => he
  rintro - v₁ ⟨b, hv₁⟩
  have hoff : v₁.file.off = v.file.pos := by rw [hv₁]; rfl
  have hin : v₁.file.inlined = true := by rw [hv₁]; exact h.inlined
  refine wp_bind (wp_look ?_)
  simp only
  rw [hoff]
  have hsub : (c.blockSize - v.file.pos).toNat = c.bsize - v.file.pos.toNat :=
    UInt32.toNat_sub_of_le _ _ (UInt32.le_iff_toNat_le.2 (by show _ ≤ c.bsize; omega))
  have hn : (min (.ofNat xs.length) (c.blockSize - v.file.pos)).toNat = xs.length := by
    rw [UInt32.toNat_min, hsub, UInt32.toNat_ofNat_of_lt' (by unfold UInt32.size; omega)]
    omega
  set n : UInt32 := min (.ofNat xs.length) (c.blockSize - v.file.pos)
  rw [hn, List.take_length]
  refine wp_then (wp_orErred (wp_progInline hin)) ?_ fun e v' he => he
  rintro - v₂ rfl
  subst hv₁
  refine wp_bind (wp_setFile (wp_bind (wp_volCkpoint (wp_pure ?_))))
  have hpos' : (v.file.pos + n).toNat = v.file.pos.toNat + xs.length := by
    rw [toNat_add_of_lt (by rw [hn]; omega), hn]
  have hsize : (max (v.file.pos + n) v.file.size).toNat =
      max v.file.fileSize.toNat (v.file.pos.toNat + xs.length) := by
    have hfile := toNat_fileSize v.file
    rw [UInt32.toNat_max, hpos']
    split at hfile <;> omega
  set v₃ := Volume.withLa _ _
  have hm : Moved (v.using comm [] []) v v₃ :=
    ⟨(apart_withFile v _ _).trans ((quiet_withLa (Quiet.refl _) _).apart _),
      ⟨rfl, rfl, rfl, rfl, rfl, rfl⟩⟩
  refine ⟨rfl, ⟨h.inlined, fun _ => ⟨rfl, fun h0 => ?_⟩, ?_, ?_, ?_, h.ready.checked⟩, hpos', rfl, hm⟩
  · have hzero : (v.file.pos + n).toNat = 0 := by
      show (v₃.file.pos).toNat = 0
      rw [h0]
      rfl
    omega
  · rw [← h.bytes_eq]
    exact bytesAt_cache (p := v.file.pos.toNat) (by omega) hsize
  · refine UInt32.le_iff_toNat_le.2 ?_
    have hfits := UInt32.le_iff_toNat_le.1 h.fits
    show (max (v.file.pos + n) v.file.size).toNat ≤ v.lim.inlineMax.toNat
    omega
  · refine h.shown.moved hm rfl (fun _ hin => ?_) (fun _ => rfl) fun b hb => (nomatch hb)
    have hin' : v.file.inlined = false := hin
    rw [h.inlined] at hin'
    cases hin'

/-! ## Any file -/

/-- What is behind the first `n` bytes comes from the old version `old`, in the blocks `own`. -/
structure Behind (c : Config) (v : Volume c) (own : List UInt32) (old : List UInt8) (n : ℕ) :
    Prop where
  size : v.file.size.toNat = old.length
  chain : n < old.length → Chain c v.mem own v.file.head v.file.size
  holds : n < old.length → Holds c v.mem own old

/-- The open file contains `bytes`, and has the blocks `own` of its own. -/
inductive Stands (c : Config) (v : Volume c) (comm : List UInt32) :
    List UInt32 → List UInt8 → Prop
  | idle {own : List UInt32} {old : List UInt8} (h : Idle c v comm own old) : Stands c v comm own old
  | branched {own br : List UInt32} {old data : List UInt8} (h : Branched c v comm own br ∅ data)
    (hold : Behind c v own old data.length) : Stands c v comm own (overlay old data)
  | inCache {bytes : List UInt8} (h : InCache c v comm bytes) : Stands c v comm [] bytes

theorem Behind.moved {n n' : ℕ} (h : Behind c v own old n) (hm : Moved (v.using comm own []) v v')
    (hle : n ≤ n') : Behind c v' own old n' := by
  have hmem : ∀ b ∈ own, v'.mem b = v.mem b :=
    fun b hb => hm.mem b (Finset.mem_coe.2 (mem_using.2 (.inr (.inr (.inl hb)))))
  refine ⟨by rw [hm.kin.size]; exact h.size, fun hn => ?_, fun hn => ?_⟩
  · rw [hm.kin.head, hm.kin.size]
    exact (h.chain (by omega)).congr hmem
  · exact (h.holds (by omega)).congr hmem

theorem Idle.behind (h : Idle c v comm own old) (n : ℕ) : Behind c v own old n :=
  ⟨h.size, fun _ => h.chain, fun _ => h.holds⟩

/-- The bytes `xs` are written at the position. -/
structure Written (c : Config) (v : Volume c) (comm own : List UInt32) (bytes xs : List UInt8)
    (v' : Volume c) : Prop where
  stands : Stands c v' comm own (put bytes v.file.pos.toNat xs)
  pos : v'.file.pos.toNat = v.file.pos.toNat + xs.length
  writing : xs ≠ [] → v'.file.writing = true
  nothing : xs = [] → v' = v
  moved : Moved (v.using comm own []) v v'

/-- Nothing is written. -/
theorem Stands.written_nil (h : Stands c v comm own bytes) : Written c v comm own bytes [] v :=
  ⟨by rw [put_nil]; exact h, rfl, fun h0 => absurd rfl h0, fun _ => rfl, Moved.refl _ v⟩

/-- The loop on a file in blocks. -/
theorem wp_flushedWrite_blocks {data : List UInt8} (h : Writable c v comm own old data)
    (hpos : v.file.pos.toNat = data.length) (hold : Behind c v own old data.length)
    (hput : put bytes data.length xs = overlay old (data ++ xs)) (hxs : xs ≠ [])
    (hsmall : data.length + xs.length < 2 ^ 32) :
    wp v.env.Bad (flushedWriteLoop xs.length xs)
      (fun _ v' => Written c v comm own bytes xs v') (Fails v comm) v := by
  refine wp_mono (wp_flushedWriteLoop _ xs data v h hxs (Nat.le_refl _) hsmall) ?_ fun e v' he => he
  rintro - v' ⟨⟨br, hbr⟩, hm⟩
  have hpos' := hbr.pos
  have hlen : (data ++ xs).length = data.length + xs.length := List.length_append
  refine ⟨?_, by rw [hpos', hlen, hpos], fun _ => hbr.writing, fun h0 => absurd h0 hxs, hm⟩
  rw [hpos, hput]
  exact .branched hbr (hold.moved hm (by omega))

/-- The loop on an inline file that its directory has no room for anymore. -/
theorem wp_writeOutlined (h : InCache c v comm bytes) (hpos : v.file.pos.toNat ≤ bytes.length)
    (hlong : v.lim.inlineMax.toNat < v.file.pos.toNat + xs.length)
    (hsmall : v.file.pos.toNat + xs.length < 2 ^ 32) :
    wp v.env.Bad (orErred fileOutline)
      (fun _ v₁ => wp v.env.Bad (flushedWriteLoop xs.length xs)
        (fun _ v' => Written c v comm [] bytes xs v') (Fails v comm) v₁)
      (Fails v comm) v := by
  have hfits := UInt32.le_iff_toNat_le.1 h.fits
  have hsize := size_le_fileSize v.file
  have hlen := h.length
  have hxs : xs ≠ [] := by
    rintro rfl
    rw [List.length_nil] at hlong
    omega
  have htake : (bytes.take v.file.pos.toNat).length = v.file.pos.toNat := by
    rw [List.length_take, Nat.min_eq_left hpos]
  refine wp_mono (wp_orErred (wp_fileOutline h hpos)) ?_ fun e v' he => he
  rintro - v₁ ⟨br, pend, hat, hm⟩
  have hwritable : Writable c v₁ comm [] [] _ := .cursor hat
  have hloop := wp_flushedWriteLoop _ xs _ v₁ hwritable hxs (Nat.le_refl _) (by omega)
  rw [using_eq hm.tree hm.dirs, hm.env] at hloop
  refine wp_mono hloop ?_ fun e v' he => he.after hm.toIntact
  rintro - v' ⟨⟨br', hbr⟩, hm'⟩
  have hm' := hm.trans hm'
  have hpos' := hbr.pos
  rw [List.length_append, htake] at hpos'
  refine ⟨?_, hpos', fun _ => hbr.writing, fun h0 => absurd h0 hxs, hm'⟩
  -- nothing is behind the new bytes
  have hold : (bytes.take v.file.size.toNat).length = v.file.size.toNat := by
    rw [List.length_take]
    omega
  have hput : put bytes v.file.pos.toNat xs =
      overlay (bytes.take v.file.size.toNat) (bytes.take v.file.pos.toNat ++ xs) := by
    rw [put_long (by omega) hpos, overlay_long (by rw [List.length_append, htake]; omega)]
  rw [hput]
  refine .branched hbr ⟨by rw [hm'.kin.size, hold], fun hn => ?_, fun hn => ?_⟩ <;>
  · rw [List.length_append, htake, hold] at hn
    omega

/-- The loop on an inline file that stays one. -/
theorem wp_flushedWrite_inline {w : Prop} (h : InCache c v comm bytes)
    (hpos : v.file.pos.toNat ≤ bytes.length)
    (hroom : v.file.pos.toNat + xs.length ≤ v.lim.inlineMax.toNat) :
    wp w (flushedWriteLoop xs.length xs)
      (fun _ v' => Written c v comm [] bytes xs v') (Fails v comm) v := by
  by_cases hxs : xs = []
  · subst hxs
    exact wp_pure (Stands.inCache h).written_nil
  · obtain ⟨x, rest, rfl⟩ := List.exists_cons_of_ne_nil hxs
    refine wp_then (wp_writeInline h hxs hpos hroom) ?_ fun e v' he => he
    rintro n v₁ ⟨rfl, hcache, hpos', hwriting, hm⟩
    rw [List.drop_length]
    unfold flushedWriteLoop
    exact wp_pure ⟨.inCache hcache, hpos', fun _ => hwriting, fun h0 => absurd h0 hxs, hm⟩

/-- **`lfs_file_flushedwrite`.** -/
theorem wp_flushedWrite (h : Stands c v comm own bytes) (hpos : v.file.pos.toNat ≤ bytes.length)
    (hsmall : v.file.pos.toNat + xs.length < 2 ^ 32) :
    wp v.env.Bad (flushedWrite xs)
      (fun _ v' => Written c v comm own bytes xs v') (Fails v comm) v := by
  have hn : (UInt32.ofNat xs.length).toNat = xs.length :=
    UInt32.toNat_ofNat_of_lt' (by unfold UInt32.size; omega)
  have hsum : (v.file.pos + .ofNat xs.length).toNat = v.file.pos.toNat + xs.length := by
    rw [toNat_add_of_lt (by rw [hn]; exact hsmall), hn]
  unfold flushedWrite
  refine wp_bind ?_
  unfold outlineFor
  refine wp_bind (wp_look ?_)
  cases h with
  | idle h =>
    have hlen : (bytes.take v.file.pos.toNat).length = v.file.pos.toNat := by
      rw [List.length_take, Nat.min_eq_left hpos]
    rw [h.blocks, if_neg (by simp)]
    refine wp_pure ?_
    by_cases hxs : xs = []
    · subst hxs
      exact wp_pure (Stands.idle h).written_nil
    · exact wp_flushedWrite_blocks (.idle h hpos) hlen.symm (h.behind _)
        (by rw [hlen]; rfl) hxs (by omega)
  | @branched _ br old data h hold =>
    rw [h.blocks, if_neg (by simp)]
    refine wp_pure ?_
    by_cases hxs : xs = []
    · subst hxs
      exact wp_pure (Stands.branched h hold).written_nil
    · exact wp_flushedWrite_blocks (.branched h) h.pos hold (put_overlay old data xs) hxs
        (by rw [← h.pos]; exact hsmall)
  | inCache h =>
    rw [h.inlined, Bool.true_and]
    by_cases hout : v.lim.inlineMax < max (v.file.pos + .ofNat xs.length) v.file.size
    · have hlt := UInt32.lt_iff_toNat_lt.1 hout
      have hfits := UInt32.le_iff_toNat_le.1 h.fits
      have hsize := size_le_fileSize v.file
      rw [UInt32.toNat_max, hsum] at hlt
      rw [if_pos (decide_eq_true hout)]
      exact (wp_writeOutlined h hpos (by omega) hsmall)
    · have hle := UInt32.le_iff_toNat_le.1 (UInt32.not_lt.1 hout)
      rw [UInt32.toNat_max, hsum] at hle
      rw [if_neg (by simp [hout])]
      exact wp_pure (wp_flushedWrite_inline h hpos (by omega))

end Boatdash.Lfs
