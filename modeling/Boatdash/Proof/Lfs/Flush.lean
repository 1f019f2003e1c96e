import Boatdash.Proof.Lfs.Content
import Boatdash.Proof.Lfs.Read

/-!
# Flushing a file

`wp_fileFlush`: `lfs_file_flush` takes what is behind the position over from the old version, byte
by byte, and writes out the last block, if need be to another one. **The file contains the same
after it, at the same position**, and what it contains is one list of blocks, or the cache.
-/

namespace Boatdash.Lfs

open Prog Ruler SkipList Overwrite

variable {c : Config} {v v' v'' : Volume c} {br comm own : List UInt32} {pend : Finset UInt32}
  {data old bytes : List UInt8} {S S' : Set UInt32}

/-- A change of a handle. -/
theorem intact_withHandle (S : Set UInt32) (v : Volume c) (n : ℕ) (h : Handle) (f : File) :
    Intact S v ((v.waited n).withHandle h f) := by
  cases h <;> exact ⟨fun _ _ => rfl, fun _ _ h => h, fun _ _ => .inr, rfl, rfl, rfl, rfl, rfl⟩

/-! ## What is behind the position -/

theorem Branched.withOrig (h : Branched c v comm own br pend data) (n : ℕ) (f : File) :
    Branched c ((v.waited n).withHandle .orig f) comm own br pend data :=
  ⟨h.writing, h.blocks, h.pos, h.nonempty, h.chain, h.off, h.holds,
    h.shown.intact (intact_withHandle _ v n .orig f) rfl, h.ready, h.fresh, h.once⟩

theorem apart_flushed (S : Set UInt32) (v : Volume c) : Apart S v v.flushed :=
  ⟨⟨fun _ _ => rfl, fun _ _ h => (nomatch h), fun _ _ => List.mem_append.1, rfl, rfl, rfl, rfl, rfl⟩,
    rfl⟩

theorem Branched.flushed (h : Branched c v comm own br pend data) :
    Branched c v.flushed comm own br pend data :=
  ⟨h.writing, h.blocks, h.pos, h.nonempty, h.chain, h.off, h.holds,
    h.shown.intact (apart_flushed _ v).toIntact rfl, h.ready, h.fresh, h.once⟩

theorem Branched.small (h : Branched c v comm own br pend data) : data.length < 2 ^ 32 := by
  rw [← h.pos]
  exact v.file.pos.toNat_lt

/-- More is written to a file that is written. -/
theorem wp_flushedWrite_branched {xs : List UInt8} (h : Branched c v comm own br ∅ data)
    (hxs : xs ≠ []) (hsmall : data.length + xs.length < 2 ^ 32) :
    wp v.env.Bad (flushedWrite xs)
      (fun _ v' => (∃ br', Branched c v' comm own br' ∅ (data ++ xs)) ∧
        Moved (v.using comm own []) v v')
      (Fails v comm) v := by
  unfold flushedWrite
  refine wp_bind ?_
  unfold outlineFor
  refine wp_bind (wp_look ?_)
  rw [h.blocks, if_neg (by simp)]
  have hwritable : Writable c v comm own [] data := .branched h
  exact wp_pure (wp_flushedWriteLoop _ xs data v hwritable hxs (Nat.le_refl _) hsmall)

/-- The old version is read by the handle `orig`, at the position of the file. -/
structure Copying (c : Config) (v : Volume c) (own : List UInt32) (old : List UInt8) (n : ℕ) :
    Prop where
  read : Readable c v.mem v.orig own old
  pos : v.orig.pos.toNat = n

/-- **The rest is copied**, a byte at a time. -/
theorem wp_copyRest (k : ℕ) (v : Volume c) (br : List UInt32) (data : List UInt8)
    (h : Branched c v comm own br ∅ data) (hsize : v.file.size.toNat = old.length)
    (hcopy : data.length < old.length → Copying c v own old data.length)
    (hk : old.length - data.length ≤ k) :
    wp v.env.Bad (copyRest k)
      (fun _ v' => (∃ br', Branched c v' comm own br' ∅ (overlay old data)) ∧
        Intact ↑(v.using comm own []) v v' ∧ v.file.Kin v'.file)
      (Fails v comm) v := by
  have hend : ∀ v : Volume c, ∀ br data, Branched c v comm own br ∅ data →
      old.length ≤ data.length → (∃ br', Branched c v comm own br' ∅ (overlay old data)) ∧
        Intact ↑(v.using comm own []) v v ∧ v.file.Kin v.file := by
    intro v br data h hle
    rw [overlay_long hle]
    exact ⟨⟨br, h⟩, Intact.refl _ v, File.Kin.refl _⟩
  induction k generalizing v br data with
  | zero => exact wp_pure (hend v br data h (by omega))
  | succ k ih =>
    have hpos := h.pos
    unfold copyRest
    refine wp_bind (wp_look ?_)
    by_cases hmore : v.file.pos < v.file.size
    · have hlt := UInt32.lt_iff_toNat_lt.1 hmore
      have hin : data.length < old.length := by omega
      have hold := v.file.size.toNat_lt
      obtain ⟨hread, hat⟩ := hcopy hin
      rw [if_pos hmore]
      refine wp_then (wp_flushedRead (h := .orig) hread) ?_ ?_
      rotate_left
      · rintro e v' ⟨he, n, f, rfl⟩
        exact ⟨.inl he, intact_withHandle _ v n .orig f⟩
      rintro xs v₁ ⟨hxs, n, f, rfl, hs, hread₁⟩
      have hbyte : xs = [old[data.length]] := by
        rw [hxs, show (v.handle .orig).pos.toNat = data.length from hat,
          List.drop_eq_getElem_cons hin]
        rfl
      subst hbyte
      have hwrite := wp_flushedWrite_branched (h.withOrig n f) (List.cons_ne_nil old[data.length] [])
        (by rw [List.length_singleton]; omega)
      refine wp_then hwrite ?_ fun e v' he => he.after (intact_withHandle _ v n .orig f)
      rintro - v₂ ⟨⟨br₂, hbr₂⟩, hm⟩
      have hi : Intact ↑(v.using comm [] []) v v₂ :=
        (intact_withHandle _ v n .orig f).trans hm.base
      have hmem : ∀ b ∈ own, v₂.mem b = v.mem b :=
        fun b hb => hm.mem b (Finset.mem_coe.2 (mem_using.2 (.inr (.inr (.inl hb)))))
      have hlen : (data ++ [old[data.length]]).length = data.length + [old[data.length]].length :=
        List.length_append
      have horig : v₂.orig = f := hm.orig
      have hcopy₂ : Copying c v₂ own old (data ++ [old[data.length]]).length := by
        refine ⟨by rw [horig]; exact hread₁.congr hmem, ?_⟩
        rw [horig, hs.pos, hlen]
        exact congrArg (· + 1) hat
      have hrest := ih v₂ br₂ _ hbr₂ (by rw [hm.kin.size]; exact hsize) (fun _ => hcopy₂)
        (by rw [hlen, List.length_singleton]; omega)
      have henv : v₂.env = v.env := hm.env
      have husing := using_eq (v := v) (show v₂.tree = v.tree from hm.tree) hm.dirs comm own []
      rw [henv, husing, overlay_next hin] at hrest
      refine wp_mono hrest ?_ fun e v' he => he.after hi
      rintro - v' ⟨hbr', hintact, hkin⟩
      exact ⟨hbr', ((intact_withHandle _ v n .orig f).trans hm.toIntact).trans hintact,
        hm.kin.trans hkin⟩
    · have hle := UInt32.le_iff_toNat_le.1 (UInt32.not_lt.1 hmore)
      rw [if_neg hmore]
      exact wp_pure (hend v br data h (by omega))

/-! ## The last block -/

/-- The last block of a file that is written. -/
theorem Branched.split (h : Branched c v comm own br pend data) :
    br.take (c.indexOf (data.length - 1)) ++ [v.file.block] = br ∧
      br.length = c.indexOf (data.length - 1) + 1 := by
  have hlen : 0 < data.length := List.length_pos_iff.2 h.nonempty
  have hpos : v.file.pos ≠ 0 := fun h0 => by
    have hzero := h.pos
    rw [h0] at hzero
    exact absurd hzero (by show 0 ≠ _; omega)
  obtain ⟨hsplit, hcount⟩ := h.chain.split hpos
  rw [h.pos] at hsplit hcount
  exact ⟨hsplit, hcount.symm⟩

/-- The last block moves, with what is written there. -/
theorem Branched.swap (h : Branched c v comm own br pend data) {mem : UInt32 → ℕ → UInt8}
    {nb : UInt32} (hdev : nb < c.blockCount)
    (hmem : ∀ x ∈ br.take (c.indexOf (data.length - 1)), mem x = v.mem x)
    (hcopy : ∀ j < v.file.off.toNat, mem nb j = v.mem v.file.block j) :
    Chain c mem (br.take (c.indexOf (data.length - 1)) ++ [nb]) nb v.file.pos ∧
      Holds c mem (br.take (c.indexOf (data.length - 1)) ++ [nb]) data := by
  have hlen : 0 < data.length := List.length_pos_iff.2 h.nonempty
  have hsmall := h.small
  obtain ⟨hsplit, hcount⟩ := h.split
  have htake : (br.take (c.indexOf (data.length - 1))).length = c.indexOf (data.length - 1) := by
    rw [List.length_take]
    omega
  have hplace := placeOf_eq c (show data.length - 1 < 2 ^ 32 by omega)
  have hoff := h.off
  have hlinked := h.chain.linked
  have hholds := h.holds
  rw [← hsplit] at hlinked hholds
  refine ⟨⟨linked_swap hlinked hmem hcopy (by rw [htake]; omega), ?_, ?_, fun _ => ?_⟩,
    holds_swap hholds hmem hcopy fun p hp hi => ?_⟩
  · intro x hx
    rcases List.mem_append.1 hx with hx | hx
    · exact h.chain.device x (List.mem_of_mem_take hx)
    · rw [List.mem_singleton.1 hx]
      exact hdev
  · rw [← h.chain.length, List.length_append, htake]
    exact hcount.symm
  · rw [List.length_append, List.length_singleton, Nat.add_sub_cancel,
      List.getElem?_append_right (Nat.le_refl _), Nat.sub_self]
    rfl
  · rw [htake] at hi
    have hle := placeOf_le c (show p ≤ data.length - 1 by omega) (by omega) hi
    omega

/-- **The last block turns out bad when it is flushed**: another one takes its place. -/
theorem Branched.relocate (h : Branched c v comm own br pend data) (hbad : v.env.Bad) :
    wp v.env.Bad fileRelocate
      (fun _ v' => ∃ br' pend', Branched c v' comm own br' pend' data ∧
        Moved (v.using comm own []) v v' ∧ pend.card < pend'.card)
      (Fails v comm) v := by
  have hsmall := h.small
  have hlen : 0 < data.length := List.length_pos_iff.2 h.nonempty
  have hlast : v.file.block ∈ br := by
    rw [← h.split.1]
    exact List.mem_append_right _ (List.mem_singleton_self _)
  set l := br.take (c.indexOf (data.length - 1))
  have hbase : v.using comm own [] ⊆ v.using comm own br := using_subset fun x hx => (nomatch hx)
  have hused : ∀ x ∈ br, x ∈ v.using comm own br :=
    fun x hx => mem_using.2 (.inr (.inr (.inr hx)))
  have hin := placeOf_lt c (show data.length - 1 < 2 ^ 32 by omega)
  have hoff := h.off
  have hreloc := wp_fileRelocate h.ready (visible_of h.shown (.inl hbad))
    (fun _ => ⟨h.chain.device _ hlast, Finset.mem_union_left _ (hused _ hlast)⟩) (by omega)
  refine wp_mono hreloc ?_ fun e v' he => he.fails base_subset
  rintro - v' ⟨v₁, nb, hhand, hcopy, rfl⟩
  obtain ⟨pend', hcard, hnb, hready⟩ := handed_card hhand
  have hcurrent : v.current = v.mem v.file.block := by
    unfold Volume.current
    rw [h.blocks]
    rfl
  rw [hcurrent] at hcopy
  have hmem : ∀ x ∈ l, v₁.mem x = v.mem x := fun x hx =>
    hhand.mem x (Finset.mem_coe.2 (Finset.mem_union_left _ (hused x (List.mem_of_mem_take hx))))
  set f : File := { v.file with block := nb, writing := true } with hf
  have hm : Moved (v.using comm own []) v (v₁.withFile f) := by
    refine ⟨(hhand.toApart.mono ?_).trans (apart_withFile v₁ f _), ⟨rfl, rfl, rfl, rfl, rfl, rfl⟩⟩
    exact Finset.coe_subset.2 (hbase.trans Finset.subset_union_left)
  obtain ⟨hchain, hholds⟩ := h.swap hhand.device hmem hcopy
  have honce : nb ∉ l := fun hx => hhand.unused (hused nb (List.mem_of_mem_take hx))
  refine ⟨l ++ [nb], pend', ⟨rfl, h.blocks, h.pos, h.nonempty, hchain, h.off, hholds, ?_, ?_, ?_, ?_⟩,
    hm, hcard⟩
  · refine h.shown.moved hm rfl (fun _ _ _ => Or.inl hchain) (fun hno => ?_) fun b hb => ?_
    · have hno' : (true && !v.file.inlined) = false := hno
      rw [h.blocks] at hno'
      cases hno'
    · rcases List.mem_append.1 hb with hb | hb
      · exact h.shown.outside b (.inr (List.mem_of_mem_take hb))
      · rw [List.mem_singleton.1 hb]
        exact outside_of hhand.unused
  · rw [using_eq hm.tree hm.dirs]
    refine hready.grow fun x hx => ?_
    rcases List.mem_append.1 hx with hx | hx
    · exact Finset.mem_union_left _ (hused x (List.mem_of_mem_take hx))
    · rw [List.mem_singleton.1 hx]
      exact Finset.mem_union_right _ hnb
  · rw [using_eq hm.tree hm.dirs]
    exact fun hx => hhand.unused (hbase hx)
  · rw [List.length_append, List.length_singleton, Nat.add_sub_cancel, List.take_left' rfl]
    exact honce

/-- **What we have is written out**, in the end. -/
theorem wp_flushOut (k : ℕ) (v : Volume c) (br : List UInt32) (pend : Finset UInt32)
    (h : Branched c v comm own br pend data) (hk : c.count < pend.card + k) :
    wp v.env.Bad (flushOut k)
      (fun _ v' => (∃ br' pend', Branched c v' comm own br' pend' data) ∧ v'.unflushed = [] ∧
        Moved (v.using comm own []) v v')
      (Fails v comm) v := by
  induction k generalizing v br pend with
  | zero =>
    have hcard := h.ready.card_le
    omega
  | succ k ih =>
    have hwait : Branched c (v.waited 1) comm own br pend data := h.withOrig 1 v.orig
    have hm : Moved (v.using comm own []) v (v.waited 1) :=
      ⟨(quiet_waited v 1).apart _, File.Kin.refl _⟩
    unfold flushOut
    refine wp_bind (wp_bdFlush ?_ (fun hbad => ?_) fun e he => fails_waited he)
    · exact wp_pure ⟨⟨br, pend, hwait.flushed⟩, rfl, hm.trans ⟨apart_flushed _ _, File.Kin.refl _⟩⟩
    · rw [if_neg (by decide)]
      refine wp_then (hwait.relocate hbad) ?_ fun e v' he => he.after hm.base
      rintro - v₂ ⟨br₂, pend₂, h₂, hm₂, hcard⟩
      have hm₂ := hm.trans hm₂
      have hrest := ih v₂ br₂ pend₂ h₂ (by omega)
      rw [using_eq hm₂.tree hm₂.dirs, hm₂.env] at hrest
      refine wp_mono hrest ?_ fun e v' he => he.after hm₂.base
      rintro - v' ⟨hbr', hflushed, hm'⟩
      exact ⟨hbr', hflushed, hm₂.trans hm'⟩

/-! ## The flush -/

theorem Shown.stays {f : File} (h : Shown v comm own []) (hw : v.file.writing = false)
    (hs : v.file.Stays f) (n : ℕ) : Shown ((v.waited n).withFile f) comm own [] := by
  refine ⟨h.entry, h.inline, ?_, ?_, fun hon => ?_, fun _ => rfl, h.outside⟩
  · show f.dirty = true → f.inlined = false → Walked c v.mem own f.head f.size
    rw [hs.dirty, hs.inlined, hs.head, hs.size]
    exact h.dirty
  · show (f.dirty && !f.inlined) = false → _
    rw [hs.dirty, hs.inlined]
    exact h.clean
  · have hon' : f.writing = true := hon
    rw [hs.writing, hw] at hon'
    cases hon'

/-- A file that is not written, after a read. -/
theorem Stands.stays {f : File} (h : Stands c v comm own bytes) (hw : v.file.writing = false)
    (hs : v.file.Stays f) (n : ℕ) : Stands c ((v.waited n).withFile f) comm own bytes := by
  have hwriting : f.writing = false := by rw [hs.writing, hw]
  cases h with
  | idle h =>
    have hchain : Chain c v.mem own f.head f.size := by
      rw [hs.head, hs.size]
      exact h.chain
    have hsize : f.size.toNat = bytes.length := by
      rw [hs.size]
      exact h.size
    exact .idle ⟨hwriting, h.flushed, hs.inlined.trans h.blocks, hsize, hchain, h.holds,
      h.shown.stays hw hs n, h.ready⟩
  | branched h =>
    rw [h.writing] at hw
    cases hw
  | inCache h =>
    have hsize : f.fileSize = v.file.fileSize := by
      unfold File.fileSize
      rw [hwriting, hw]
      exact hs.size
    refine .inCache ⟨hs.inlined.trans h.inlined, fun hon => ?_, ?_, ?_, h.shown.stays hw hs n,
      h.ready⟩
    · have hon' : f.writing = true := hon
      rw [hwriting] at hon'
      cases hon'
    · show bytesAt (fun _ => f.cache) 0 0 f.fileSize.toNat = bytes
      rw [hs.cache, hsize]
      exact h.bytes_eq
    · show f.fileSize ≤ v.lim.inlineMax
      rw [hsize]
      exact h.fits

/-- The file contains the same, at the same position, and is not written anymore. -/
structure Flushed (c : Config) (v : Volume c) (comm own : List UInt32) (bytes : List UInt8)
    (v' : Volume c) : Prop where
  stands : Stands c v' comm own bytes
  writing : v'.file.writing = false
  reading : v'.file.reading = false
  pos : v'.file.pos = v.file.pos
  append : v'.file.append = v.file.append
  erred : v'.file.erred = v.file.erred
  dirty : v'.file.dirty = (v.file.dirty || v.file.writing)
  intact : Intact ↑(v.using comm [] []) v v'

/-- What was written is the version of the file. -/
theorem Branched.idle (h : Branched c v comm own br pend data) (hflushed : v.unflushed = [])
    (pos : UInt32) :
    Idle c (v.withFile { v.file with
      head := v.file.block, size := v.file.pos, writing := false, dirty := true, pos := pos })
      comm br data := by
  refine ⟨rfl, fun b _ hb => ?_, h.blocks, h.pos, h.chain, h.holds, ⟨h.shown.entry, h.shown.inline,
    fun _ _ => Or.inl h.chain, fun hno => ?_, fun hon => (nomatch hon), fun _ => rfl, ?_⟩, ?_⟩
  · have hb' : b ∈ v.unflushed := hb
    rw [hflushed] at hb'
    cases hb'
  · have hno' : (true && !v.file.inlined) = false := hno
    rw [h.blocks] at hno'
    cases hno'
  · exact fun b hb => hb.elim (fun hb => h.shown.outside b (.inr hb)) fun hb => (nomatch hb)
  · exact h.ready.settle (fun _ => .inl) fun _ hx => .inr (.inr hx)

/-- The flush of a file in blocks. -/
theorem wp_flushBranched (h : Branched c v comm own br ∅ data) (hold : Behind c v own old data.length)
    (hreading : v.file.reading = false) (pos : UInt32) :
    wp v.env.Bad (do
        flushData
        setFile fun f => { f with
          head := f.block, size := f.pos, writing := false, dirty := true, pos := pos })
      (fun _ v' => ∃ own', Idle c v' comm own' (overlay old data) ∧ v'.file.reading = false ∧
        v'.file.pos = pos ∧ v'.file.append = v.file.append ∧ v'.file.erred = v.file.erred ∧
        v'.file.dirty = true ∧ Intact ↑(v.using comm own []) v v')
      (Fails v comm) v := by
  refine wp_bind ?_
  unfold flushData
  refine wp_bind (wp_look ?_)
  simp only
  rw [h.blocks, if_neg (by decide)]
  refine wp_bind (wp_setHandle ?_)
  set o : File := { head := v.file.head, size := v.file.size, pos := v.file.pos }
  have h₁ : Branched c (v.withHandle .orig o) comm own br ∅ data := h.withOrig 0 o
  have hcopy : data.length < old.length → Copying c (v.withHandle .orig o) own old data.length :=
    fun hlt => ⟨⟨hold.size, fun hin => (nomatch hin), fun _ => hold.chain hlt,
      fun _ => hold.holds hlt, ⟨fun hon => (nomatch hon), fun hon => (nomatch hon)⟩⟩, h.pos⟩
  refine wp_then (wp_copyRest _ _ br data h₁ hold.size hcopy ?_) ?_
    fun e v' he => he.after (intact_withHandle _ v 0 .orig o)
  · have hsize := hold.size
    have hpos := h.pos
    omega
  rintro - v₂ ⟨⟨br₂, h₂⟩, hintact, hkin⟩
  have henv : v₂.env = v.env := hintact.env
  have hout := wp_flushOut (c.count + 1) v₂ br₂ ∅ h₂ (by rw [Finset.card_empty]; omega)
  have hi : Intact ↑(v.using comm [] []) v v₂ := (intact_withHandle _ v 0 .orig o).trans
    (hintact.mono (Finset.coe_subset.2 base_subset))
  rw [henv] at hout
  refine wp_mono hout ?_ fun e v' he => he.after hi
  rintro - v₃ ⟨⟨br₃, pend, h₃⟩, hflushed, hm⟩
  have hkin := hkin.trans hm.kin
  refine wp_setFile ⟨br₃, h₃.idle hflushed pos, ?_, rfl, hkin.append, hkin.erred, rfl, ?_⟩
  · exact hkin.reading.trans hreading
  · have hm' := hm.toIntact
    rw [using_eq (v := v) (show v₂.tree = v.tree from hintact.tree) hintact.dirs] at hm'
    exact ((intact_withHandle _ v 0 .orig o).trans hintact).trans
      (hm'.trans (apart_withFile v₃ _ _).toIntact)

/-- What was written is the version of an inline file, too. -/
theorem InCache.flushed {f : File} (h : InCache c v comm bytes) (hin : f.inlined = true)
    (hw : f.writing = false) (hsize : f.size = v.file.fileSize) (hcache : f.cache = v.file.cache) :
    InCache c (v.withFile f) comm bytes := by
  have hsize' : f.fileSize = v.file.fileSize := by
    unfold File.fileSize at hsize ⊢
    rw [hw]
    exact hsize
  refine ⟨hin, fun hon => ?_, ?_, ?_, ⟨h.shown.entry, h.shown.inline, fun _ hno => ?_,
    fun _ b hb => (nomatch hb), fun hon => ?_, fun _ => rfl, h.shown.outside⟩, h.ready⟩
  · exact absurd (hw.symm.trans hon) (by decide)
  · show bytesAt (fun _ => f.cache) 0 0 f.fileSize.toNat = bytes
    rw [hcache, hsize']
    exact h.bytes_eq
  · show f.fileSize ≤ v.lim.inlineMax
    rw [hsize']
    exact h.fits
  · exact absurd (hin.symm.trans hno) (by decide)
  · exact absurd (hw.symm.trans hon) (by decide)

/-- **`lfs_file_flush`.** -/
theorem wp_fileFlush (h : Stands c v comm own bytes) :
    wp v.env.Bad fileFlush (fun _ v' => ∃ own', Flushed c v comm own' bytes v')
      (Fails v comm) v := by
  unfold fileFlush
  refine wp_bind (wp_setFile (wp_bind (wp_look ?_)))
  set v₀ := v.withFile { v.file with reading := false } with hv₀
  have hstays : v.file.Stays { v.file with reading := false } :=
    ⟨rfl, rfl, rfl, rfl, rfl, rfl, rfl, rfl⟩
  have hintact : Intact ↑(v.using comm [] []) v v₀ := (apart_withFile _ _ _).toIntact
  by_cases hw : v₀.file.writing = true
  swap
  · have hw' : v.file.writing = false := Bool.eq_false_iff.2 hw
    rw [if_neg hw]
    exact wp_pure ⟨own, h.stays hw' hstays 0, hw', rfl, rfl, rfl, rfl,
      by rw [hw', Bool.or_false]; rfl, hintact⟩
  rw [if_pos hw]
  have hw : v.file.writing = true := hw
  cases h with
  | idle h =>
    rw [h.writing] at hw
    cases hw
  | @branched _ br old data h hold =>
    have h₀ : Branched c v₀ comm own br ∅ data := ⟨h.writing, h.blocks, h.pos, h.nonempty,
      h.chain, h.off, h.holds, ⟨h.shown.entry, h.shown.inline, h.shown.dirty, h.shown.clean,
        h.shown.written, h.shown.unwritten, h.shown.outside⟩, h.ready, h.fresh, h.once⟩
    refine wp_mono (wp_flushBranched h₀ ⟨hold.size, hold.chain, hold.holds⟩ rfl v₀.file.pos) ?_
      fun e v' he => he.after hintact
    rintro - v' ⟨own', hidle, hreading, hpos, happend, herred, hdirty, hintact'⟩
    refine ⟨own', .idle hidle, hidle.writing, hreading, hpos, happend, herred, ?_,
      hintact.trans (hintact'.mono ?_)⟩
    · rw [hdirty, hw, Bool.or_true]
    · exact Finset.coe_subset.2 base_subset
  | inCache h =>
    refine wp_bind ?_
    unfold flushData
    refine wp_bind (wp_look ?_)
    have hin : v₀.file.inlined = true := h.inlined
    simp only
    rw [if_pos hin]
    have hsize : max v.file.pos v.file.size = v.file.fileSize := by
      unfold File.fileSize
      rw [if_pos hw]
    refine wp_setFile (wp_setFile ⟨[], .inCache (h.flushed h.inlined rfl hsize rfl), rfl, rfl, rfl,
      rfl, rfl, ?_, (apart_withFile v _ _).toIntact⟩)
    rw [hw, Bool.or_true]
    rfl

end Boatdash.Lfs
