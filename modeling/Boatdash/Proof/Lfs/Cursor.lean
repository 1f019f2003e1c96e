import Boatdash.Spec.Lfs.File
import Boatdash.Proof.Lfs.Extend

/-!
# Where a file is written

A file that is written has new blocks for the bytes before `pos` (`Cursor`). They stay linked, and
hold the same bytes, when the last of them turns out bad and what there is of it is copied to
another one: `wp_fileRelocate`, and `wp_progFile` for the loop around it.
-/

namespace Boatdash.Lfs

open Prog Ruler SkipList

variable {c : Config} {v v' : Volume c} {mem mem' : UInt32 → ℕ → UInt8} {br comm own : List UInt32}
  {b nb : UInt32} {used pend : Finset UInt32} {w : Prop} {data : List UInt8}

/-- The volume with another open file. -/
def Volume.withFile (v : Volume c) (f : File) : Volume c := { v with file := f }

theorem apart_withFile (v : Volume c) (f : File) (S : Set UInt32) : Apart S v (v.withFile f) :=
  ⟨⟨fun _ _ => rfl, fun _ _ h => h, fun _ _ => .inr, rfl, rfl, rfl, rfl, rfl⟩, rfl⟩

theorem wp_setFile {g : File → File} {Q : Unit → Volume c → Prop} {E : Stop → Volume c → Prop}
    (h : Q () (v.withFile (g v.file))) : wp w (setFile g) Q E v := wp_update h

theorem wp_volCkpoint {Q : Unit → Volume c → Prop} {E : Stop → Volume c → Prop}
    (h : Q () (v.withLa (v.la.map (allocCkpoint c)))) : wp w volCkpoint Q E v := wp_update h

/-! ## Relocating -/

/-- The bytes of the block that is written. -/
def Volume.current (v : Volume c) : ℕ → UInt8 :=
  if v.file.inlined then v.file.cache else v.mem v.file.block

/-- What there is of the file's last block, in a new one. -/
theorem wp_fileRelocate (hr : Ready c v.la used pend) (hv : Visible w v used)
    (hblock : v.file.inlined = false → v.file.block < c.blockCount ∧ v.file.block ∈ used ∪ pend)
    (hoff : v.file.off.toNat ≤ c.bsize) :
    wp w fileRelocate
      (fun _ v' => ∃ v₁ nb, Handed c v v₁ used pend nb ∧
        (∀ j < v.file.off.toNat, v₁.mem nb j = v.current j) ∧
        v' = v₁.withFile { v.file with block := nb, writing := true })
      (Refused c v used) v := by
  have hsize := c.bsize_lt
  unfold fileRelocate
  refine wp_bind (wp_look (wp_then (wp_onNewBlock
    (G := fun nb _ v' => ∀ j < v.file.off.toNat, v'.mem nb j = v.current j) ?_ _ v pend
    (Finset.Subset.refl _) hr hv (Apart.refl _ v) rfl (by omega)) ?_ fun e v' h => h))
  rotate_left
  · rintro ⟨nb, _⟩ v₁ ⟨hhand, hcopy⟩
    refine wp_setFile ⟨v₁, nb, hhand, hcopy, ?_⟩
    rw [hhand.file]
  intro nb v₁ _ hfree ha hf
  unfold relocateOnto
  refine wp_bind (wp_bdErase ?_ ?_)
  rotate_left
  · exact fun e junk he => ⟨he, only_spoil v₁ nb 0 1 junk⟩
  intro good junk
  have ho := only_spoil v₁ nb 0 1 junk
  set v₂ := (v₁.waited 1).withMem nb (spoil v₁.mem nb 0 junk)
  cases good with
  | false => exact wp_pure ⟨ho, fun a h => (nomatch h)⟩
  | true =>
    rw [if_pos rfl]
    have hread : Reads w v₁ nb v.file.off.toNat v.current (relocateRead v.file) := by
      intro i v₃ hi ho₃
      unfold relocateRead Volume.current
      cases hin : v.file.inlined with
      | true => exact wp_pure ⟨rfl, Quiet.refl v₃, rfl⟩
      | false =>
        obtain ⟨hdev, hmem⟩ := hblock hin
        refine wp_bdRead (by show _ ≤ c.bsize; omega) hdev ?_ ?_
        · refine ⟨?_, quiet_waited v₃ 1, rfl⟩
          have hne : v.file.block ≠ nb := fun h => hfree (h ▸ hmem)
          show [v₃.mem v.file.block i.toNat] = [v.mem v.file.block i.toNat]
          rw [ho₃.mem_eq hne, ha.mem _ (Finset.mem_coe.2 hmem)]
        · exact fun e he => ⟨he.errs rfl, quiet_waited v₃ 1, rfl⟩
    refine wp_then (wp_copyBytes _ 0 v₂ hread (Nat.zero_add _) (by omega) ho
      fun j hj => absurd hj (Nat.not_lt_zero j)) ?_ fun e v' h => h
    rintro (_ | _) v₃ ⟨ho₃, hcopy⟩
    · exact wp_pure ⟨ho₃, fun a h => (nomatch h)⟩
    · exact wp_pure ⟨ho₃, fun a _ => hcopy rfl⟩

/-! ## The place to write at -/

/-- The file is written at `pos`, the bytes `data` before it are in the blocks `br`, and there is
room in the last of them. -/
structure Cursor (c : Config) (v : Volume c) (br : List UInt32) (data : List UInt8) : Prop where
  writing : v.file.writing = true
  blocks : v.file.inlined = false
  pos : v.file.pos.toNat = data.length
  linked : Linked (ptrAt v.mem) br
  device : ∀ x ∈ br, x < c.blockCount
  length : br.length = c.indexOf data.length + 1
  last : br[c.indexOf data.length]? = some v.file.block
  off : v.file.off.toNat = c.placeOf data.length
  holds : Holds c v.mem br data

theorem Cursor.small (h : Cursor c v br data) : data.length < 2 ^ 32 := by
  rw [← h.pos]
  exact UInt32.toNat_lt _

theorem Cursor.split (h : Cursor c v br data) :
    br.take (c.indexOf data.length) ++ [v.file.block] = br := by
  have htake := List.take_add_one (l := br) (i := c.indexOf data.length)
  rw [h.last, ← h.length, List.take_length] at htake
  exact htake.symm

theorem Cursor.length_take (h : Cursor c v br data) :
    (br.take (c.indexOf data.length)).length = c.indexOf data.length := by
  have hlen := h.length
  rw [List.length_take]
  omega

/-- **The last block moves**, with all that is written there. -/
theorem Cursor.move (h : Cursor c v br data) (hdev : nb < c.blockCount)
    (hmem : ∀ x ∈ br.take (c.indexOf data.length), v'.mem x = v.mem x)
    (hcopy : ∀ j < v.file.off.toNat, v'.mem nb j = v.mem v.file.block j)
    (hfile : v'.file = { v.file with block := nb, writing := true }) :
    Cursor c v' (br.take (c.indexOf data.length) ++ [nb]) data := by
  have hlt := h.small
  have htake := h.length_take
  have hplace := placeOf_eq c hlt
  have hoff := h.off
  have hlinked := h.linked
  have hholds := h.holds
  rw [← h.split] at hlinked hholds
  refine ⟨by rw [hfile], by rw [hfile]; exact h.blocks, by rw [hfile]; exact h.pos, ?_, ?_, ?_, ?_,
    by rw [hfile]; exact h.off, ?_⟩
  · exact linked_swap hlinked hmem hcopy (by rw [htake]; omega)
  · intro x hx
    rcases List.mem_append.1 hx with hx | hx
    · exact h.device x (List.mem_of_mem_take hx)
    · rw [List.mem_singleton.1 hx]
      exact hdev
  · rw [List.length_append, htake]
    rfl
  · rw [List.getElem?_append_right (by rw [htake]), htake, Nat.sub_self, hfile]
    rfl
  · refine holds_swap hholds hmem hcopy fun p hp hi => ?_
    rw [htake] at hi
    have hstart := (indexOf_spec c (show p < 2 ^ 32 by omega)).1
    have hplace' := placeOf_eq c (show p < 2 ^ 32 by omega)
    rw [hi] at hplace' hstart
    omega

/-- The blocks of a `Cursor` that a traversal finds. -/
theorem Cursor.walked (h : Cursor c v br data) (hbetween : v.file.between c = false) :
    Walked c v.mem (br.take (c.blocksOf data.length)) v.file.block v.file.pos := by
  have hlt := h.small
  left
  by_cases hzero : data.length = 0
  · have hpos : v.file.pos = 0 := UInt32.toNat_inj.1 (h.pos.trans hzero)
    rw [hzero, hpos]
    exact chain_nil _ _
  · have hpos := h.pos
    have hsub : (v.file.pos - 1).toNat = data.length - 1 := by
      rw [UInt32.toNat_sub_of_le _ _ (UInt32.le_iff_toNat_le.2 (by show 1 ≤ _; omega)), hpos]
      rfl
    have hne : v.file.pos ≠ 0 := by
      intro h0
      rw [h0] at hpos
      exact hzero hpos.symm
    -- it is written behind the byte before `pos`
    have hbehind : (ctzIndex c (v.file.pos - 1)).2 + 1 = v.file.off := by
      unfold File.between at hbetween
      rw [h.writing, h.blocks, bne_iff_ne.2 hne] at hbetween
      simpa using hbetween
    have hbsize := c.bsize_lt
    have hin := placeOf_lt c (show data.length - 1 < 2 ^ 32 by omega)
    have hin' := placeOf_lt c hlt
    have hplace := (ctzIndex_eq c (v.file.pos - 1)).2
    rw [hsub] at hplace
    have hoff : c.placeOf (data.length - 1) + 1 = c.placeOf data.length := by
      rw [← h.off, ← hbehind, toNat_add_of_lt (by rw [hplace]; show _ + 1 < _; omega), hplace]
      rfl
    have hsame : c.indexOf data.length = c.indexOf (data.length - 1) := by
      have hnext := next_place c (show data.length - 1 + 1 < 2 ^ 32 by omega)
      rw [show data.length - 1 + 1 = data.length by omega] at hnext
      rcases hnext with ⟨-, hsame, -⟩ | ⟨hfull, -, -⟩
      · exact hsame
      · omega
    have hcount : c.blocksOf data.length = br.length := by
      obtain ⟨n, hn⟩ := Nat.exists_eq_succ_of_ne_zero hzero
      rw [h.length, hsame, hn]
      rfl
    rw [hcount, List.take_length]
    refine ⟨h.linked, h.device, by rw [hpos, hcount], fun _ => ?_⟩
    rw [h.length, Nat.add_sub_cancel]
    exact h.last

/-! ## With everything around it -/

/-- The files differ only in how they are written. -/
structure File.Kin (f f' : File) : Prop where
  head : f'.head = f.head
  size : f'.size = f.size
  dirty : f'.dirty = f.dirty
  erred : f'.erred = f.erred
  append : f'.append = f.append
  reading : f'.reading = f.reading

/-- On the way from `v` to `v'` only the file was written, and nothing else that is used. -/
structure Moved (s : Finset UInt32) (v v' : Volume c) : Prop extends Apart ↑s v v' where
  kin : v.file.Kin v'.file

theorem File.Kin.refl (f : File) : f.Kin f := ⟨rfl, rfl, rfl, rfl, rfl, rfl⟩

theorem File.Kin.trans {f f' f'' : File} (h : f.Kin f') (h' : f'.Kin f'') : f.Kin f'' :=
  ⟨h'.head.trans h.head, h'.size.trans h.size, h'.dirty.trans h.dirty, h'.erred.trans h.erred,
    h'.append.trans h.append, h'.reading.trans h.reading⟩

theorem Moved.refl (s : Finset UInt32) (v : Volume c) : Moved s v v :=
  ⟨Apart.refl _ v, File.Kin.refl _⟩

theorem Moved.trans {s : Finset UInt32} {v'' : Volume c} (h : Moved s v v') (h' : Moved s v' v'') :
    Moved s v v'' := ⟨h.toApart.trans h'.toApart, h.kin.trans h'.kin⟩

theorem using_eq (h : v'.tree = v.tree) (hd : v'.dirs = v.dirs) (comm own br : List UInt32) :
    v'.using comm own br = v.using comm own br := by
  unfold Volume.using Volume.others
  rw [h, hd]

theorem using_subset {l l' : List UInt32} (h : ∀ x ∈ l, x ∈ l') :
    v.using comm own l ⊆ v.using comm own l' := by
  intro x hx
  rw [mem_using] at hx ⊢
  rcases hx with hx | hx | hx | hx
  · exact .inl hx
  · exact .inr (.inl hx)
  · exact .inr (.inr (.inl hx))
  · exact .inr (.inr (.inr (h x hx)))

/-- A block that is not used is none of a directory. -/
theorem outside_of {own br : List UInt32} (h : b ∉ v.using comm own br) : b ∉ v.dirs :=
  fun hb => h (mem_using.2 (.inl (mem_others.2 (.inr hb))))

/-- What is committed is part of what is used. -/
theorem base_subset {own br : List UInt32} : v.using comm [] [] ⊆ v.using comm own br := by
  intro x hx
  rw [mem_using] at hx ⊢
  rcases hx with hx | hx | hx | hx
  · exact .inl hx
  · exact .inr (.inl hx)
  · cases hx
  · cases hx

theorem Moved.base {own : List UInt32} (h : Moved (v.using comm own []) v v') :
    Intact ↑(v.using comm [] []) v v' := h.toIntact.mono (Finset.coe_subset.2 base_subset)

/-- What is committed stays, through code after code. -/
theorem Intact.andThen {v'' : Volume c} (h : Intact ↑(v.using comm [] []) v v')
    (h' : Intact ↑(v'.using comm [] []) v' v'') : Intact ↑(v.using comm [] []) v v'' := by
  rw [using_eq h.tree h.dirs] at h'
  exact h.trans h'

/-- How code ends that fails: by the last call or for want of space, and with all that is committed
as it was. -/
def Fails (v : Volume c) (comm : List UInt32) (e : Stop) (v' : Volume c) : Prop :=
  v'.Failed e ∧ Intact ↑(v.using comm [] []) v v'

theorem Fails.after {v'' : Volume c} {e : Stop} (h : Fails v' comm e v'')
    (hi : Intact ↑(v.using comm [] []) v v') : Fails v comm e v'' :=
  ⟨h.1, hi.andThen h.2⟩

theorem Refused.fails {e : Stop} (h : Refused c v used e v')
    (hsub : v.using comm [] [] ⊆ used) : Fails v comm e v' :=
  ⟨h.1, h.2.1.toIntact.mono (Finset.coe_subset.2 hsub)⟩

theorem Fails.withFile {e : Stop} (h : Fails v comm e v') (f : File) :
    Fails v comm e (v'.withFile f) := ⟨h.1, h.2.trans (apart_withFile v' f _).toIntact⟩

/-- A read that fails. -/
theorem fails_waited {e : Stop} {n : ℕ} (he : (v.waited n).Errs e) : Fails v comm e (v.waited n) :=
  ⟨.inl he, ((quiet_waited v n).apart _).toIntact⟩

/-- Another list of written blocks. -/
theorem Shown.moved {l l' : List UInt32} (h : Shown v comm own l)
    (hm : Moved (v.using comm own []) v v') (hin : v'.file.inlined = v.file.inlined)
    (hwritten : v'.file.writing = true → v'.file.inlined = false → v'.file.between c = false →
      Walked c v'.mem l' v'.file.block v'.file.pos)
    (hnone : (v'.file.writing && !v'.file.inlined) = false → l' = [])
    (hout : ∀ b ∈ l', b ∉ v.dirs) : Shown v' comm own l' := by
  have hmem : ∀ b, (b ∈ v.others ∨ b ∈ comm ∨ b ∈ own) → v'.mem b = v.mem b := by
    intro b hb
    refine hm.mem b (Finset.mem_coe.2 (mem_using.2 ?_))
    rcases hb with hb | hb | hb
    · exact .inl hb
    · exact .inr (.inl hb)
    · exact .inr (.inr (.inl hb))
  refine ⟨?_, ?_, ?_, ?_, hwritten, hnone, ?_⟩
  · intro head size he
    rw [hm.entry] at he
    exact (h.entry head size he).congr fun b hb => hmem b (.inr (.inl hb))
  · rw [hm.entry]
    exact h.inline
  · rw [hm.kin.dirty, hm.kin.head, hm.kin.size, hin]
    exact fun hd hi => (h.dirty hd hi).congr fun b hb => hmem b (.inr (.inr hb))
  · rw [hm.kin.dirty, hin]
    exact h.clean
  · rw [hm.dirs]
    exact fun b hb => hb.elim (fun hb => h.outside b (.inl hb)) (hout b)

/-- A `Cursor` on a volume: `own` are the blocks of the old version, the new last block is apart
from all others, and the allocator holds on to it. -/
structure AtCursor (c : Config) (v : Volume c) (comm own br : List UInt32) (pend : Finset UInt32)
    (data : List UInt8) : Prop extends Cursor c v br data where
  shown : Shown v comm own (br.take (c.blocksOf data.length))
  ready : Ready c v.la (v.using comm own (br.take (c.blocksOf data.length))) pend
  fresh : v.file.block ∉ v.using comm own []
  once : v.file.block ∉ br.take (c.indexOf data.length)
  held : v.file.block ∈ v.using comm own (br.take (c.blocksOf data.length)) ∪ pend

theorem Cursor.take_le (h : Cursor c v br data) {x : UInt32}
    (hx : x ∈ br.take (c.indexOf data.length)) : x ∈ br.take (c.blocksOf data.length) := by
  have hle : c.indexOf data.length ≤ c.blocksOf data.length := by
    cases hlen : data.length with
    | zero =>
      rw [indexOf_zero]
      exact Nat.zero_le _
    | succ n =>
      have hnext := next_place c (show n + 1 < 2 ^ 32 by rw [← hlen]; exact h.small)
      show c.indexOf (n + 1) ≤ c.indexOf n + 1
      omega
  exact (List.take_prefix_take_left hle).subset hx

theorem File.same {f : File} (h : f.writing = true) :
    { f with block := f.block, writing := true } = f := by
  cases f
  cases h
  rfl

/-- The last block moves, on a volume. -/
theorem AtCursor.move {pend' : Finset UInt32} (h : AtCursor c v comm own br pend data)
    (hdev : nb < c.blockCount) (hm : Apart ↑(v.using comm own []) v v')
    (hmem : ∀ x ∈ br.take (c.indexOf data.length), v'.mem x = v.mem x)
    (hcopy : ∀ j < v.file.off.toNat, v'.mem nb j = v.mem v.file.block j)
    (hfile : v'.file = { v.file with block := nb, writing := true })
    (hready : Ready c v'.la (v.using comm own (br.take (c.blocksOf data.length))) pend')
    (hfresh : nb ∉ v.using comm own []) (honce : nb ∉ br.take (c.indexOf data.length))
    (hheld : nb ∈ v.using comm own (br.take (c.blocksOf data.length)) ∪ pend') :
    ∃ br', AtCursor c v' comm own br' pend' data := by
  have hcursor := h.toCursor.move hdev hmem hcopy hfile
  have hkin : v.file.Kin v'.file := by
    rw [hfile]
    exact ⟨rfl, rfl, rfl, rfl, rfl, rfl⟩
  have hin : v'.file.inlined = v.file.inlined := by rw [hfile]
  have htake := h.length_take
  have husing := using_eq hm.tree hm.dirs comm own
  have hshort : (br.take (c.indexOf data.length) ++ [nb]).take (c.indexOf data.length) =
      br.take (c.indexOf data.length) := List.take_left' htake
  -- the blocks a traversal finds are those from before, and perhaps the new one
  have hsub : ∀ x ∈ (br.take (c.indexOf data.length) ++ [nb]).take (c.blocksOf data.length),
      x ∈ br.take (c.blocksOf data.length) ∨ x = nb := by
    intro x hx
    rcases List.mem_append.1 (List.mem_of_mem_take hx) with hx | hx
    · exact .inl (h.toCursor.take_le hx)
    · exact .inr (List.mem_singleton.1 hx)
  refine ⟨br.take (c.indexOf data.length) ++ [nb], hcursor, ?_, ?_, ?_, ?_, ?_⟩
  · refine h.shown.moved ⟨hm, hkin⟩ hin (fun _ _ => hcursor.walked) (fun hoff => ?_) fun b hb => ?_
    · rw [hcursor.writing, hcursor.blocks] at hoff
      cases hoff
    · rcases hsub b hb with hb | rfl
      · exact h.shown.outside b (.inr hb)
      · exact outside_of hfresh
  · rw [husing]
    refine hready.grow fun x hx => ?_
    rcases hsub x hx with hx | rfl
    · exact Finset.mem_union_left _ (mem_using.2 (.inr (.inr (.inr hx))))
    · exact hheld
  · rw [husing, hfile]
    exact hfresh
  · rw [hshort, hfile]
    exact honce
  · rw [husing, hfile]
    rcases Finset.mem_union.1 hheld with hx | hx
    · refine Finset.mem_union_left _ (mem_using.2 ?_)
      rcases mem_using.1 hx with hx | hx | hx | hx
      · exact .inl hx
      · exact .inr (.inl hx)
      · exact .inr (.inr (.inl hx))
      · -- it is the last block that is found
        have hfull : c.indexOf data.length < c.blocksOf data.length := by
          by_contra hle
          exact honce ((List.take_prefix_take_left (Nat.not_lt.1 hle)).subset hx)
        rw [List.take_of_length_le (by rw [List.length_append, htake]; exact hfull)]
        exact .inr (.inr (.inr (List.mem_append_right _ (List.mem_singleton_self nb))))
    · exact Finset.mem_union_right _ hx

theorem Cursor.off_lt (h : Cursor c v br data) : v.file.off.toNat < c.bsize := by
  rw [h.off]
  exact placeOf_lt c h.small

theorem Cursor.mem_block (h : Cursor c v br data) : v.file.block ∈ br :=
  List.mem_of_getElem? h.last

theorem handed_card {v₁ : Volume c} (h : Handed c v v₁ used pend nb) :
    ∃ pend', pend.card < pend'.card ∧ nb ∈ pend' ∧ Ready c v₁.la used pend' := by
  obtain ⟨pend', hsub, hnb, hready⟩ := h.ready
  refine ⟨pend', Finset.card_lt_card ⟨hsub, fun hsub' => h.new (hsub' hnb)⟩, hnb, hready⟩

/-- **The last block turns out bad**: another one takes its place. -/
theorem AtCursor.relocate (h : AtCursor c v comm own br pend data) (hbad : v.env.Bad) :
    wp v.env.Bad fileRelocate
      (fun _ v' => ∃ br' pend', AtCursor c v' comm own br' pend' data ∧
        Moved (v.using comm own []) v v' ∧ pend.card < pend'.card)
      (Fails v comm) v := by
  have hbase : v.using comm own [] ⊆ v.using comm own (br.take (c.blocksOf data.length)) :=
    using_subset fun x hx => (nomatch hx)
  have hreloc := wp_fileRelocate h.ready (visible_of h.shown (.inl hbad))
    (fun _ => ⟨h.device _ h.mem_block, h.held⟩) h.off_lt.le
  refine wp_mono hreloc ?_ fun e v' he => he.fails base_subset
  rintro - v' ⟨v₁, nb, hhand, hcopy, rfl⟩
  obtain ⟨pend', hcard, hnb, hready⟩ := handed_card hhand
  have ha : Apart ↑(v.using comm own []) v v₁ :=
    hhand.toApart.mono (Finset.coe_subset.2 (hbase.trans Finset.subset_union_left))
  set f : File := { v.file with block := nb, writing := true } with hf
  have ha' : Apart ↑(v.using comm own []) v (v₁.withFile f) := ha.trans (apart_withFile v₁ f _)
  have hmem : ∀ x ∈ br.take (c.indexOf data.length), v₁.mem x = v.mem x := by
    intro x hx
    refine hhand.mem x (Finset.mem_coe.2 (Finset.mem_union_left _ (mem_using.2 ?_)))
    exact .inr (.inr (.inr (h.toCursor.take_le hx)))
  have hcurrent : v.current = v.mem v.file.block := by
    unfold Volume.current
    rw [h.blocks]
    rfl
  rw [hcurrent] at hcopy
  obtain ⟨br', hat⟩ := h.move hhand.device ha' hmem hcopy rfl hready
    (fun hx => hhand.unused (hbase hx))
    (fun hx => hhand.unused (mem_using.2 (.inr (.inr (.inr (h.toCursor.take_le hx))))))
    (Finset.mem_union_right _ hnb)
  exact ⟨br', pend', hat, ⟨ha', ⟨rfl, rfl, rfl, rfl, rfl, rfl⟩⟩, hcard⟩

/-- Of a block that is spoiled from `off` on nothing is lost that was written. -/
theorem AtCursor.spoiled (h : AtCursor c v comm own br pend data) (junk : ℕ → UInt8) :
    ∃ br', AtCursor c ((v.waited 1).withMem v.file.block (spoil v.mem v.file.block v.file.off.toNat junk))
      comm own br' pend data := by
  have ho := only_spoil v v.file.block v.file.off.toNat 1 junk
  refine h.move (h.device _ h.mem_block) (ho.outside h.fresh) (fun x hx => ?_) (fun j hj => ?_) ?_
    h.ready h.fresh h.once h.held
  · exact ho.mem_eq fun hxb => h.once (hxb ▸ hx)
  · exact spoil_below hj
  · exact (File.same h.writing).symm

/-- **The loop that programs a block**: the bytes are at the place, in the end. -/
theorem wp_progFile (xs : List UInt8) (k : ℕ) (v : Volume c) (br : List UInt32)
    (pend : Finset UInt32) (h : AtCursor c v comm own br pend data) (hk : c.count < pend.card + k) :
    wp v.env.Bad (progFile xs k)
      (fun _ v' => ∃ v₁ br' pend', AtCursor c v₁ comm own br' pend' data ∧
        Moved (v.using comm own []) v v₁ ∧
        v' = (v₁.waited 1).withMem v₁.file.block (setBytes v₁.mem v₁.file.block v₁.file.off.toNat xs))
      (Fails v comm) v := by
  induction k generalizing v br pend with
  | zero =>
    have hcard := h.ready.card_le
    omega
  | succ k ih =>
    unfold progFile
    refine wp_bind ?_
    unfold fileProg
    refine wp_bind (wp_look ?_)
    rw [h.blocks]
    refine wp_bdProg ?_ ?_ ?_
    · exact wp_pure ⟨v, br, pend, h, Moved.refl _ v, rfl⟩
    · intro junk hbad
      obtain ⟨br', hspoiled⟩ := h.spoiled junk
      have ho := only_spoil v v.file.block v.file.off.toNat 1 junk
      have hm : Moved (v.using comm own []) v _ := ⟨ho.outside h.fresh, File.Kin.refl _⟩
      rw [if_neg (by decide)]
      refine wp_then (hspoiled.relocate hbad) ?_ fun e v' he => he.after hm.base
      rintro - v₂ ⟨br₂, pend₂, hat, hm₂, hcard⟩
      have hm₂ := hm.trans hm₂
      have hrest := ih v₂ br₂ pend₂ hat (by omega)
      rw [using_eq hm₂.tree hm₂.dirs, hm₂.env] at hrest
      refine wp_mono hrest ?_ fun e v' he => he.after hm₂.base
      rintro - v' ⟨v₁, br', pend', hat', hm', rfl⟩
      exact ⟨v₁, br', pend', hat', hm₂.trans hm', rfl⟩
    · intro e junk he
      have ho := only_spoil v v.file.block v.file.off.toNat 1 junk
      have hm : Moved (v.using comm own []) v _ := ⟨ho.outside h.fresh, File.Kin.refl _⟩
      exact ⟨.inl he, hm.base⟩

end Boatdash.Lfs
