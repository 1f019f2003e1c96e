import Boatdash.Proof.Lfs.Opened

/-!
# Writing, seeking and truncating an open file

`wp_fileWrite`, `wp_fileSeek` and `wp_fileTruncate`: **each of these calls does to the contents of
the file what `Contents.step` says**, with its zeros in the gap behind the end of the file, its
limits, and its positions, and writes nothing of what is committed.
-/

namespace Boatdash.Lfs

open Prog Overwrite

variable {c : Config} {v v' v'' : Volume c} {comm own : List UInt32} {s s' : Contents}

/-! ## Zeros -/

theorem length_padTo (l : List UInt8) (n : ℕ) : (padTo l n).length = max l.length n := by
  unfold padTo
  rw [List.length_append, List.length_replicate]
  omega

theorem padTo_of_le {l : List UInt8} {n : ℕ} (h : n ≤ l.length) : padTo l n = l := by
  unfold padTo
  rw [Nat.sub_eq_zero_of_le h]
  exact List.append_nil l

/-- One zero after another. -/
theorem padTo_snoc {l : List UInt8} {n : ℕ} (h : l.length < n) : padTo (l ++ [0]) n = padTo l n := by
  unfold padTo
  rw [List.length_append, List.length_singleton, List.append_assoc,
    show n - l.length = n - (l.length + 1) + 1 by omega]
  rfl

/-! ## Writing -/

/-- A handle that does not read is anywhere. -/
theorem placed_of_not {f : File} {blk : List UInt32} (h : f.reading = false) : Placed c f blk :=
  ⟨fun hon => absurd (h.symm.trans hon) (by decide),
    fun hon => absurd (h.symm.trans hon) (by decide)⟩

/-- **`lfs_file_flushedwrite`**, at a position of the file. -/
theorem wp_writeOpened (xs : List UInt8) (h : Opened c v comm own s) (hr : v.file.reading = false)
    (hpos : s.pos ≤ s.bytes.length) (hmax : s.pos + xs.length ≤ v.lim.fileMax.toNat)
    (happ : s.append = true → s.bytes.length ≤ s.pos) :
    wp v.env.Bad (flushedWrite xs)
      (fun _ v' => Leads c v comm
        { s with bytes := put s.bytes s.pos xs, pos := s.pos + xs.length } v' ∧
          v'.file.reading = false)
      (Fails v comm) v := by
  have hlim := fileMax_le v.lim
  have hp := h.pos
  have hlen := length_put (d := xs) hpos
  have hle := h.length_le
  refine wp_mono (wp_flushedWrite h.stands (by omega) (by omega)) ?_ fun e v' he => he
  rintro - v' ⟨hstands, hpos', hwriting, hnothing, hm⟩
  have hreading : v'.file.reading = false := hm.kin.reading.trans hr
  have hi : Intact ↑(v.using comm [] []) v v' := hm.base
  rw [hp] at hstands hpos'
  refine ⟨⟨⟨own, hstands, fun _ => placed_of_not hreading, fun _ => hreading, hpos', ?_, ?_,
    hm.kin.erred.trans h.erred, hm.kin.append.trans h.append, fun ha _ => ?_, h.saved.intact hi,
    fun hd hw => ?_⟩, hi⟩, hreading⟩
  · rw [hi.lim]
    exact hmax
  · rw [hi.lim]
    show (put s.bytes s.pos xs).length ≤ _
    omega
  · have hend := happ ha
    show (put s.bytes s.pos xs).length ≤ s.pos + xs.length
    omega
  · by_cases hxs : xs = []
    · obtain rfl := hnothing hxs
      show put s.bytes s.pos xs = s.saved
      rw [hxs, put_nil]
      exact h.clean hd hw
    · exact absurd ((hwriting hxs).symm.trans hw) (by decide)

/-- **Zeros up to a position.** -/
theorem wp_fillZeros {p : UInt32} (k : ℕ) (v : Volume c) (own : List UInt32) (s : Contents)
    (h : Opened c v comm own s) (hr : v.file.reading = false) (hend : s.pos = s.bytes.length)
    (hp : s.pos ≤ p.toNat) (hmax : p.toNat ≤ v.lim.fileMax.toNat) (hk : p.toNat - s.pos ≤ k) :
    wp v.env.Bad (fillZeros p k)
      (fun _ v' => Leads c v comm { s with bytes := padTo s.bytes p.toNat, pos := p.toNat } v' ∧
        v'.file.reading = false)
      (Fails v comm) v := by
  have hdone : ∀ v : Volume c, ∀ own s, Opened c v comm own s → v.file.reading = false →
      s.pos = s.bytes.length → s.pos = p.toNat →
      Leads c v comm { s with bytes := padTo s.bytes p.toNat, pos := p.toNat } v ∧
        v.file.reading = false := by
    rintro v own s h hr hend heq
    rw [padTo_of_le (by omega), ← heq]
    exact ⟨⟨⟨own, h⟩, Intact.refl _ v⟩, hr⟩
  induction k generalizing v own s with
  | zero => exact wp_pure (hdone v own s h hr hend (by omega))
  | succ k ih =>
    have hpos := h.pos
    unfold fillZeros
    refine wp_bind (wp_look ?_)
    by_cases hmore : v.file.pos < p
    · have hlt := UInt32.lt_iff_toNat_lt.1 hmore
      rw [if_pos hmore]
      have hwrite := wp_writeOpened [0] h hr hend.le
        (by rw [List.length_singleton]; omega) fun _ => hend.ge
      refine wp_then hwrite ?_ fun e v' he => he
      rintro - v₁ ⟨⟨⟨own₁, h₁⟩, hi⟩, hr₁⟩
      have hput : put s.bytes s.pos [0] = s.bytes ++ [0] := by rw [hend, put_length]
      rw [hput] at h₁
      have hrest := ih v₁ own₁ _ h₁ hr₁ (by rw [List.length_append, hend])
        (by show s.pos + 1 ≤ _; omega) (by rw [hi.lim]; exact hmax)
        (by show p.toNat - (s.pos + 1) ≤ k; omega)
      rw [hi.env] at hrest
      refine wp_mono hrest ?_ fun e v' he => he.after hi
      rintro - v' ⟨hleads, hr'⟩
      have hleads := hleads.trans hi
      rw [padTo_snoc (by omega)] at hleads
      exact ⟨hleads, hr'⟩
    · have hle := UInt32.le_iff_toNat_le.1 (UInt32.not_lt.1 hmore)
      rw [if_neg hmore]
      exact wp_pure (hdone v own s h hr hend (by omega))

/-- **The gap** behind the end of the file is filled. -/
theorem wp_fillGap (h : Opened c v comm own s) (hr : v.file.reading = false) :
    wp v.env.Bad fillGap
      (fun _ v' => Leads c v comm { s with bytes := padTo s.bytes s.pos } v' ∧
        v'.file.reading = false)
      (Fails v comm) v := by
  have hpos := h.pos
  have hfile := h.stands.fileSize
  rw [toNat_fileSize] at hfile
  unfold fillGap
  refine wp_bind (wp_look ?_)
  simp only
  by_cases hgap : (!v.file.writing && decide (v.file.size < v.file.pos)) = true
  · rw [if_pos hgap]
    rw [Bool.and_eq_true, decide_eq_true_eq] at hgap
    have hw : v.file.writing = false := by simpa using hgap.1
    have hlt := UInt32.lt_iff_toNat_lt.1 hgap.2
    have hsize := h.stands.size hw
    refine wp_bind (wp_setFile ?_)
    set f : File := { v.file with pos := v.file.size } with hf
    have hs : v.file.Stays f := ⟨rfl, rfl, rfl, rfl, rfl, rfl, rfl, rfl⟩
    have h₁ := h.move hw hs (placed_of_not hr) (p := s.bytes.length) hsize h.length_le 0
    have hfill := wp_fillZeros (p := v.file.pos) (v.file.pos.toNat - v.file.size.toNat) _ own _ h₁ hr
      rfl (by show s.bytes.length ≤ _; omega) (by rw [hpos]; exact h.pos_le)
      (by show v.file.pos.toNat - s.bytes.length ≤ _; omega)
    have hi := (apart_withFile v f ↑(v.using comm [] [])).toIntact
    refine wp_mono hfill ?_ fun e v' he => he.after hi
    rintro - v' ⟨hleads, hr'⟩
    rw [hpos] at hleads
    exact ⟨hleads.trans hi, hr'⟩
  · rw [if_neg hgap]
    have hle : s.pos ≤ s.bytes.length := by
      cases hw : v.file.writing with
      | true =>
        rw [if_pos hw] at hfile
        omega
      | false =>
        rw [hw] at hfile hgap
        have hnot : ¬ v.file.size < v.file.pos := by simpa using hgap
        have hle := UInt32.le_iff_toNat_le.1 (UInt32.not_lt.1 hnot)
        have hsize : v.file.size.toNat = s.bytes.length := hfile
        omega
    rw [padTo_of_le hle]
    exact wp_pure ⟨⟨⟨own, h⟩, Intact.refl _ v⟩, hr⟩

/-- Where the file is written in the end. -/
def Contents.atPlace (s : Contents) : Contents := { s with pos := s.place }

theorem Contents.le_place (s : Contents) (h : s.append = true) : s.bytes.length ≤ s.place := by
  unfold Contents.place
  split
  · exact le_rfl
  · next hno => exact Nat.le_of_not_lt fun hlt => hno ⟨h, hlt⟩

/-- A file to which is appended goes to its end first. -/
theorem Opened.atPlace (h : Opened c v comm own s) (hr : v.file.reading = false) :
    Opened c (v.withFile
      (if v.file.append && decide (v.file.pos < v.file.size) then
        { v.file with pos := v.file.size } else v.file)) comm own s.atPlace := by
  have hpos := h.pos
  have hfile := h.stands.fileSize
  have hsize := size_le_fileSize v.file
  unfold Contents.atPlace Contents.place
  by_cases hjump : s.append = true ∧ s.pos < s.bytes.length
  · have hw : v.file.writing = false := by
      refine Bool.eq_false_iff.2 fun hw => ?_
      have hend := h.appended hjump.1 hw
      omega
    have hlen := h.stands.size hw
    have hlt : v.file.pos < v.file.size := UInt32.lt_iff_toNat_lt.2 (by omega)
    have hyes : (v.file.append && decide (v.file.pos < v.file.size)) = true := by
      rw [h.append, hjump.1]
      simpa using hlt
    rw [if_pos hyes, if_pos hjump]
    have hs : v.file.Stays { v.file with pos := v.file.size } :=
      ⟨rfl, rfl, rfl, rfl, rfl, rfl, rfl, rfl⟩
    exact h.move hw hs (placed_of_not hr) hlen h.length_le 0
  · have hno : (v.file.append && decide (v.file.pos < v.file.size)) = false := by
      rw [h.append]
      cases ha : s.append with
      | false => rfl
      | true =>
        have hnot : ¬ v.file.pos < v.file.size := fun hlt => hjump
          ⟨ha, by have := UInt32.lt_iff_toNat_lt.1 hlt; omega⟩
        simpa using hnot
    rw [hno, if_neg (by decide), if_neg hjump]
    exact h

/-- **`lfs_file_write_`.** -/
theorem wp_fileWrite (xs : List UInt8) (h : Opened c v comm own s) (hxs : xs.length ≤ 0x7fffffff) :
    wp v.env.Bad (fileWrite xs)
      (fun res v' => Reply.code res = s.out v.lim.fileMax.toNat (.write xs) ∧
        Leads c v comm (s.step v.lim.fileMax.toNat (.write xs)) v')
      (Fails v comm) v := by
  have hlim := fileMax_le v.lim
  unfold fileWrite
  refine wp_then (wp_flushIf h) ?_ fun e v' he => he
  rintro - v₁ ⟨⟨⟨own₁, h₁⟩, hi₁⟩, hflush⟩
  have hr : v₁.file.reading = false := by
    rcases hflush with ⟨rfl, hr⟩ | ⟨-, hr⟩
    · exact hr
    · exact hr
  have h₂ := h₁.atPlace hr
  refine wp_bind (wp_setFile (wp_bind (wp_look ?_)))
  have hi₂ := hi₁.trans (apart_withFile v₁ (if v₁.file.append && decide (v₁.file.pos < v₁.file.size)
    then { v₁.file with pos := v₁.file.size } else v₁.file) _).toIntact
  have hr₂ : (if v₁.file.append && decide (v₁.file.pos < v₁.file.size)
      then { v₁.file with pos := v₁.file.size } else v₁.file).reading = false := by
    split
    · exact hr
    · exact hr
  generalize (if v₁.file.append && decide (v₁.file.pos < v₁.file.size)
    then { v₁.file with pos := v₁.file.size } else v₁.file) = f at h₂ hi₂ hr₂ ⊢
  set v₂ := v₁.withFile f
  have hpos₂ : v₂.file.pos.toNat = s.place := h₂.pos
  have hle₂ := h₂.pos_le
  have hlim₂ : v₂.lim = v.lim := hi₂.lim
  have hsum : (v₂.file.pos + .ofNat xs.length : UInt32).toNat = s.place + xs.length := by
    have hof : (UInt32.ofNat xs.length).toNat = xs.length := by
      refine UInt32.toNat_ofNat_of_lt' ?_
      unfold UInt32.size
      omega
    have hle : s.place ≤ v.lim.fileMax.toNat := by
      rw [← hlim₂]
      exact hle₂
    rw [toNat_add_of_lt (by omega), hpos₂, hof]
  by_cases hbig : v₂.lim.fileMax < v₂.file.pos + .ofNat xs.length
  · have hlt := UInt32.lt_iff_toNat_lt.1 hbig
    rw [hsum, hlim₂] at hlt
    rw [if_pos hbig]
    refine wp_pure ⟨?_, ?_⟩
    · simp only [Contents.out, if_pos hlt]
    · simp only [Contents.step, if_pos hlt]
      exact ⟨⟨own₁, h₂⟩, hi₂⟩
  · have hle := UInt32.le_iff_toNat_le.1 (UInt32.not_lt.1 hbig)
    rw [hsum, hlim₂] at hle
    rw [if_neg hbig]
    have hnot : ¬ v.lim.fileMax.toNat < s.place + xs.length := by omega
    have hgap := wp_fillGap h₂ hr₂
    rw [hi₂.env] at hgap
    refine wp_then hgap ?_ fun e v' he => he.after hi₂
    rintro - v₃ ⟨⟨⟨own₃, h₃⟩, hi₃⟩, hr₃⟩
    have hi₃ := hi₂.andThen hi₃
    have hwrite := wp_writeOpened xs h₃ hr₃ (by
      show s.place ≤ (padTo s.bytes s.place).length
      rw [length_padTo]
      exact le_max_right _ _) (by rw [hi₃.lim]; exact hle) (fun ha => by
        show (padTo s.bytes s.place).length ≤ s.place
        rw [length_padTo]
        exact max_le (s.le_place ha) le_rfl)
    rw [hi₃.env] at hwrite
    refine wp_then hwrite ?_ fun e v' he => he.after hi₃
    rintro - v₄ ⟨⟨⟨own₄, h₄⟩, hi₄⟩, hr₄⟩
    refine wp_bind (wp_setFile (wp_pure ⟨?_, ?_⟩))
    · simp only [Contents.out, if_neg hnot]
    · have hfile : { v₄.file with erred := false } = v₄.file := by rw [← h₄.erred]
      rw [hfile]
      simp only [Contents.step, if_neg hnot]
      exact ⟨⟨own₄, h₄⟩, hi₃.andThen hi₄⟩

/-! ## Seeking -/

/-- An offset is added to a position below `2 ^ 31` without a wrap, but below zero. -/
theorem toNat_add_toUInt32 (a : UInt32) (off : Int32) (ha : a.toNat ≤ 0x7fffffff) :
    ((a + off.toUInt32).toNat : ℤ) =
      if 0 ≤ a.toNat + off.toInt then a.toNat + off.toInt else a.toNat + off.toInt + 2 ^ 32 := by
  have hcond : off.toInt = if 2 * off.toUInt32.toNat < 2 ^ 32 then (off.toUInt32.toNat : ℤ)
      else off.toUInt32.toNat - (2 ^ 32 : ℕ) := BitVec.toInt_eq_toNat_cond off.toBitVec
  have hlt := off.toUInt32.toNat_lt
  rw [UInt32.toNat_add]
  split at hcond <;> split <;> omega

/-- The position that `lfs_file_seek_` is to go to, as the program sees it. -/
theorem Opened.target (h : Opened c v comm own s) (off : Int32) (whence : Whence) :
    ((v.file.target off whence).toNat : ℤ) =
      if 0 ≤ s.target off whence then s.target off whence
      else s.target off whence + 2 ^ 32 := by
  have hlim := fileMax_le v.lim
  cases whence with
  | seekSet =>
    have hadd := toNat_add_toUInt32 0 off (by decide)
    rw [UInt32.zero_add, show ((0 : UInt32).toNat : ℤ) = 0 from rfl, zero_add] at hadd
    exact hadd
  | seekCur =>
    have hpos := h.pos
    have hle := h.pos_le
    have hadd := toNat_add_toUInt32 v.file.pos off (by omega)
    rw [hpos] at hadd
    exact hadd
  | seekEnd =>
    have hsize := h.stands.fileSize
    have hle := h.length_le
    have hadd := toNat_add_toUInt32 v.file.fileSize off (by omega)
    rw [hsize] at hadd
    exact hadd

/-- A target that is too far, or before the beginning. -/
theorem Opened.target_gt (h : Opened c v comm own s) (off : Int32) (whence : Whence) :
    v.lim.fileMax < v.file.target off whence ↔
      ¬ (0 ≤ s.target off whence ∧ s.target off whence ≤ v.lim.fileMax.toNat) := by
  have hlim := fileMax_le v.lim
  have hto := h.target off whence
  rw [UInt32.lt_iff_toNat_lt]
  have hge : -2 ^ 31 ≤ s.target off whence := by
    have hoff := Int32.le_toInt off
    cases whence <;> simp only [Contents.target] <;> omega
  split at hto <;> omega

/-- **`lfs_file_seek_`.** -/
theorem wp_fileSeek (h : Opened c v comm own s) (off : Int32) (whence : Whence) :
    wp v.env.Bad (fileSeek off whence)
      (fun res v' => Reply.code res = s.out v.lim.fileMax.toNat (.seek off whence) ∧
        Leads c v comm (s.step v.lim.fileMax.toNat (.seek off whence)) v')
      (Fails v comm) v := by
  have hgt := h.target_gt off whence
  have hto := h.target off whence
  unfold fileSeek
  refine wp_bind (wp_look ?_)
  simp only [Contents.out, Contents.step]
  generalize v.file.target off whence = npos at hgt hto ⊢
  generalize s.target off whence = t at hgt hto ⊢
  by_cases hbig : v.lim.fileMax < npos
  · rw [if_pos hbig, if_neg (hgt.1 hbig), if_neg (hgt.1 hbig)]
    exact wp_pure ⟨rfl, ⟨own, h⟩, Intact.refl _ v⟩
  have hin : 0 ≤ t ∧ t ≤ v.lim.fileMax.toNat := by
    by_contra hno
    exact hbig (hgt.2 hno)
  rw [if_pos hin.1] at hto
  have hnat : npos.toNat = t.toNat := by omega
  rw [if_neg hbig, if_pos hin, if_pos hin]
  have hle : t.toNat ≤ v.lim.fileMax.toNat := by omega
  by_cases hsame : v.file.pos = npos
  · have hpos : t.toNat = s.pos := by rw [← hnat, ← hsame, h.pos]
    rw [if_pos hsame, hpos]
    exact wp_pure ⟨by rw [hto], ⟨own, h⟩, Intact.refl _ v⟩
  rw [if_neg hsame]
  obtain ⟨hidx, hplace⟩ := ctzIndex_eq c npos
  split
  · next hnear =>
    obtain ⟨hr, hoff, heq, -⟩ := hnear
    have hw : v.file.writing = false := by
      cases hw : v.file.writing with
      | false => rfl
      | true => exact absurd (hr.symm.trans (h.alone hw)) (by decide)
    set f : File := { v.file with pos := npos, off := (ctzIndex c npos).2 }
    have hs : v.file.Stays f := ⟨rfl, rfl, rfl, rfl, rfl, rfl, rfl, rfl⟩
    -- the block is the one of the position before
    have hblock : c.indexOf npos.toNat = c.indexOf v.file.pos.toNat := by
      rw [← hidx, ← (ctzIndex_eq c v.file.pos).1, heq]
    have hplaced : Placed c f own := by
      refine ⟨fun _ _ _ => hplace, fun _ _ hi hlt => ?_⟩
      show own[c.indexOf npos.toNat]? = some v.file.block
      rw [hblock]
      exact (h.placed hw).block hr hoff hi (hblock ▸ hlt)
    refine wp_bind (wp_setFile (wp_pure ⟨by rw [hto], ⟨own, ?_⟩, ?_⟩))
    · exact h.move hw hs hplaced hnat hle 0
    · exact (apart_withFile v f _).toIntact
  · refine wp_then (wp_flushOpened h) ?_ fun e v' he => he
    rintro - v' ⟨⟨⟨own', h'⟩, hi⟩, hw, hr, -⟩
    set f : File := { v'.file with pos := npos }
    have hs : v'.file.Stays f := ⟨rfl, rfl, rfl, rfl, rfl, rfl, rfl, rfl⟩
    refine wp_bind (wp_setFile (wp_pure ⟨by rw [hto], ⟨own', ?_⟩, ?_⟩))
    · exact h'.move hw hs (placed_of_not hr) hnat (by rw [hi.lim]; exact hle) 0
    · exact hi.trans (apart_withFile v' f _).toIntact

/-- A seek to a position of a file. -/
theorem wp_seekTo (h : Opened c v comm own s) {p : UInt32} (hp : p ≤ v.lim.fileMax) :
    wp v.env.Bad (fileSeek (.ofUInt32 p) .seekSet)
      (fun res v' => res = p.toNat ∧ Leads c v comm { s with pos := p.toNat } v')
      (Fails v comm) v := by
  have hlim := fileMax_le v.lim
  have hle := UInt32.le_iff_toNat_le.1 hp
  have hto : s.target (.ofUInt32 p) .seekSet = p.toNat := by
    show (Int32.ofUInt32 p).toInt = _
    have hcond : (Int32.ofUInt32 p).toInt = if 2 * p.toNat < 2 ^ 32 then (p.toNat : ℤ)
        else p.toNat - (2 ^ 32 : ℕ) := BitVec.toInt_eq_toNat_cond p.toBitVec
    rw [hcond, if_pos (by omega)]
  have hin : 0 ≤ (p.toNat : ℤ) ∧ (p.toNat : ℤ) ≤ v.lim.fileMax.toNat := by omega
  refine wp_mono (wp_fileSeek h _ _) ?_ fun e v' he => he
  rintro res v' ⟨hres, hleads⟩
  simp only [Contents.out, Contents.step, hto, if_pos hin] at hres hleads
  exact ⟨Reply.code.inj hres, hleads⟩

/-- **`lfs_file_rewind_`.** -/
theorem wp_fileRewind (h : Opened c v comm own s) :
    wp v.env.Bad fileRewind
      (fun res v' => res = 0 ∧ Leads c v comm { s with pos := 0 } v')
      (Fails v comm) v := by
  unfold fileRewind
  refine wp_then (wp_seekTo h (UInt32.le_iff_toNat_le.2 (Nat.zero_le _))) ?_ fun e v' he => he
  rintro res v' ⟨rfl, hleads⟩
  rw [if_neg (by decide)]
  exact wp_pure ⟨rfl, hleads⟩

/-! ## Truncating -/

/-- Another file in the place of the one that was open. -/
theorem Opened.replace {own' bytes : List _} {f : File} (h : Opened c v comm own s)
    (hstands : Stands c (v.withFile f) comm own' bytes) (hplaced : Placed c f own')
    (hw : f.writing = false) (hd : f.dirty = true) (herred : f.erred = v.file.erred)
    (happend : f.append = v.file.append) (hlen : bytes.length ≤ v.lim.fileMax.toNat)
    (hpos : f.pos.toNat ≤ v.lim.fileMax.toNat) :
    Opened c (v.withFile f) comm own' { s with bytes := bytes, pos := f.pos.toNat } :=
  ⟨hstands, fun _ => hplaced, fun hon => absurd (hw.symm.trans hon) (by decide), rfl, hpos, hlen,
    herred.trans h.erred, happend.trans h.append,
    fun _ hon => absurd (hw.symm.trans hon) (by decide),
    h.saved.intact (apart_withFile v f _).toIntact,
    fun hno => absurd (hd.symm.trans hno) (by decide)⟩

/-- The file with fewer bytes, in its cache. -/
def File.shrunkInline (f : File) (n : UInt32) (data : List UInt8) : File :=
  { f with
    head := blockInline, size := n, dirty := true, reading := true, inlined := true
    cache := fun i => (data[i]?).getD (f.cache i) }

/-- The file with fewer bytes, the last of them in the block `b`. -/
def File.shrunk (f : File) (n b : UInt32) : File :=
  { f with block := b, pos := n, head := b, size := n, dirty := true, reading := true }

theorem length_take_of_lt {n : UInt32} {bytes : List UInt8} (h : n.toNat < bytes.length) :
    (bytes.take n.toNat).length = n.toNat := by
  rw [List.length_take]
  omega

/-- **Few bytes go into the cache.** -/
theorem Opened.shrinkInline {n : UInt32} (h : Opened c v comm own s)
    (hw : v.file.writing = false) (hlt : n.toNat < s.bytes.length) (hin : n ≤ v.lim.inlineMax)
    (hpos : v.file.pos = n) :
    Opened c (v.withFile (v.file.shrunkInline n (s.bytes.take n.toNat))) comm []
      { s with bytes := s.bytes.take n.toNat, pos := n.toNat } := by
  have htake := length_take_of_lt hlt
  have hlen := h.length_le
  set f := v.file.shrunkInline n (s.bytes.take n.toNat) with hf
  have hfp : f.pos = n := hpos
  have hsize : f.fileSize = n := by
    show (if v.file.writing then max v.file.pos n else n) = n
    rw [hw]
    rfl
  have hcache : InCache c (v.withFile f) comm (s.bytes.take n.toNat) := by
    refine ⟨rfl, fun hon => absurd (hw.symm.trans hon) (by decide), ?_, ?_,
      ⟨h.saved.version.entry_chain, h.saved.version.inline_nil, fun _ hno => (nomatch hno),
        fun _ b hb => (nomatch hb), fun _ hno => (nomatch hno), fun _ => rfl,
        fun b hb => hb.elim (fun hb => (nomatch hb)) fun hb => (nomatch hb)⟩, h.stands.ready⟩
    · show bytesAt f.cacheMem 0 0 f.fileSize.toNat = _
      rw [hsize]
      apply List.ext_getElem?
      intro i
      by_cases hi : i < n.toNat
      · have hi' : i < (s.bytes.take n.toNat).length := by omega
        rw [getElem?_bytesAt hi, Nat.zero_add, List.getElem?_eq_getElem hi']
        show some (((s.bytes.take n.toNat)[i]?).getD _) = _
        rw [List.getElem?_eq_getElem hi']
        rfl
      · rw [List.getElem?_eq_none (by rw [length_bytesAt]; omega),
          List.getElem?_eq_none (by omega)]
    · show f.fileSize ≤ v.lim.inlineMax
      rw [hsize]
      exact hin
  have hplaced : Placed c f [] :=
    ⟨fun _ _ hp => absurd (UInt32.lt_iff_toNat_lt.1 hp) (by rw [hfp]; exact Nat.lt_irrefl _),
      fun _ _ _ hno => absurd hno (Nat.not_lt_zero _)⟩
  have hnew := h.replace (f := f) (.inCache hcache) hplaced hw rfl rfl rfl
    (by omega) (by rw [hfp]; omega)
  rw [hfp] at hnew
  exact hnew

/-- A file that is too large for the cache, and not written. -/
theorem Stands.idle_of {bytes : List UInt8} (h : Stands c v comm own bytes)
    (hw : v.file.writing = false) (hbig : v.lim.inlineMax.toNat < bytes.length) :
    Idle c v comm own bytes := by
  cases h with
  | idle h => exact h
  | branched h => exact absurd (hw.symm.trans h.writing) (by decide)
  | inCache h =>
    have hfits := UInt32.le_iff_toNat_le.1 h.fits
    have hlength := h.length
    omega

/-- **More bytes stay in the blocks that they are in.** -/
theorem Opened.shrinkBlocks {n b : UInt32} (h : Opened c v comm own s)
    (hw : v.file.writing = false) (hlt : n.toNat < s.bytes.length) (hin : ¬ n ≤ v.lim.inlineMax)
    (hb : own[c.indexOf (n.toNat - 1)]? = some b) :
    ∃ own', Opened c (v.withFile (v.file.shrunk n b)) comm own'
      { s with bytes := s.bytes.take n.toNat, pos := n.toNat } := by
  have htake := length_take_of_lt hlt
  have hlen := h.length_le
  have hmax := fileMax_le v.lim
  have hinline := UInt32.lt_iff_toNat_lt.1 (UInt32.not_le.1 hin)
  have hn : n ≠ 0 := by
    rintro rfl
    exact absurd hinline (Nat.not_lt_zero _)
  have hidle := h.stands.idle_of hw (by omega)
  have hsize := hidle.size
  set f := v.file.shrunk n b with hf
  set own' := own.take (c.blocksOf n.toNat) with hown
  have hchain : Chain c v.mem own' b n := hidle.chain.take hn (by omega) hb
  have hidle' : Idle c (v.withFile f) comm own' (s.bytes.take n.toNat) := by
    have hsub : ∀ x ∈ own', x ∈ own := fun x hx => List.mem_of_mem_take hx
    refine ⟨hw, fun x hx => hidle.flushed x (hsub x hx), hidle.blocks, htake.symm, hchain,
      hidle.holds.take (by omega) hlt.le, ⟨hidle.shown.entry, hidle.shown.inline,
        fun _ _ => Or.inl hchain, fun hno => ?_, fun hon => absurd (hw.symm.trans hon) (by decide),
        fun _ => rfl, fun x hx => hidle.shown.outside x (hx.imp_left (hsub x))⟩, ?_⟩
    · have hno' : (true && !v.file.inlined) = false := hno
      rw [hidle.blocks] at hno'
      cases hno'
    · exact hidle.ready.settle (fun _ => .inl) fun x hx => .inr (.inl (hsub x hx))
  have hplaced : Placed c f own' := by
    refine ⟨fun _ _ hp => absurd (UInt32.lt_iff_toNat_lt.1 hp) (Nat.lt_irrefl _),
      fun _ _ _ hidx => ?_⟩
    -- the position is behind the last byte, and if it is not in a new block it is in that one's
    show own'[c.indexOf n.toNat]? = some b
    have hidx : c.indexOf n.toNat < own'.length := hidx
    have hcount := hchain.length
    obtain ⟨m, hm⟩ := Nat.exists_eq_succ_of_ne_zero (fun h0 => hn (UInt32.toNat_inj.1 h0))
    have hblocks : c.blocksOf n.toNat = c.indexOf m + 1 := by
      rw [hm]
      rfl
    have hmono := indexOf_mono c (p := m) (q := n.toNat) (by omega) (by omega)
    have heq : c.indexOf n.toNat = own'.length - 1 := by omega
    rw [heq]
    exact hchain.last hn
  have hnew := h.replace (f := f) (.idle hidle') hplaced hw rfl rfl rfl (by omega)
    (by show n.toNat ≤ _; omega)
  exact ⟨own', hnew⟩

/-- **`lfs_file_truncate_`**, for fewer bytes. -/
theorem wp_truncateShrink {n : UInt32} (h : Opened c v comm own s)
    (hlt : n.toNat < s.bytes.length) :
    wp v.env.Bad (truncateShrink n)
      (fun res v' => res = 0 ∧
        Leads c v comm { s with bytes := s.bytes.take n.toNat, pos := n.toNat } v')
      (Fails v comm) v := by
  have htake := length_take_of_lt hlt
  unfold truncateShrink
  refine wp_bind (wp_look ?_)
  by_cases hin : n ≤ v.lim.inlineMax
  · rw [if_pos hin]
    refine wp_then (wp_seekTo h (p := 0) (UInt32.le_iff_toNat_le.2 (Nat.zero_le _))) ?_
      fun e v' he => he
    rintro res v₁ ⟨rfl, ⟨own₁, h₁⟩, hi₁⟩
    rw [if_neg (by decide)]
    have hw₁ : v₁.file.writing = false :=
      Bool.eq_false_iff.2 fun hw => h₁.stands.pos_ne hw (UInt32.toNat_inj.1 h₁.pos)
    have hread := wp_readOpened (n := n) h₁ hw₁
    rw [hi₁.env] at hread
    refine wp_then hread ?_ fun e v' he => he.after hi₁
    rintro data v₂ ⟨hdata, ⟨⟨own₂, h₂⟩, hi₂⟩, hw₂⟩
    have hi₂ := hi₁.andThen hi₂
    obtain rfl : data = s.bytes.take n.toNat := hdata
    have hpos : v₂.file.pos = n := by
      refine UInt32.toNat_inj.1 (h₂.pos.trans ?_)
      show 0 + (s.bytes.take n.toNat).length = _
      omega
    have hnew := h₂.shrinkInline hw₂ hlt (by rw [hi₂.lim]; exact hin) hpos
    exact wp_bind (wp_setFile (wp_pure ⟨rfl, ⟨_, hnew⟩,
      hi₂.trans (apart_withFile v₂ _ _).toIntact⟩))
  · rw [if_neg hin]
    refine wp_then (wp_flushOpened h) ?_ fun e v' he => he
    rintro - v₁ ⟨⟨⟨own₁, h₁⟩, hi₁⟩, hw₁, -, -⟩
    refine wp_bind (wp_look ?_)
    have hbig := UInt32.lt_iff_toNat_lt.1 (UInt32.not_le.1 hin)
    have hidle := h₁.stands.idle_of hw₁ (by rw [hi₁.lim]; omega)
    have hsize := hidle.size
    have hone : (1 : UInt32).toNat = 1 := rfl
    have hsub : (n - 1).toNat = n.toNat - 1 :=
      UInt32.toNat_sub_of_le _ _ (UInt32.le_iff_toNat_le.2 (by omega))
    have hlast : n - 1 < v₁.file.size := UInt32.lt_iff_toNat_lt.2 (by omega)
    have hfind := wp_ctzFind (w := v.env.Bad) hidle.chain hlast
    refine wp_then hfind ?_ ?_
    rotate_left
    · rintro e - ⟨he, k, rfl⟩
      exact (fails_waited (he.errs rfl)).after hi₁
    rintro ⟨b, off⟩ v₂ ⟨hb, -, k, -, rfl⟩
    rw [hsub] at hb
    have h₂ : Opened c (v₁.waited k) comm own₁ s :=
      h₁.move hw₁ (File.Stays.refl _) (h₁.placed hw₁) h₁.pos h₁.pos_le k
    obtain ⟨own', hnew⟩ := h₂.shrinkBlocks hw₁ hlt (by
      show ¬ n ≤ v₁.lim.inlineMax
      rw [hi₁.lim]
      exact hin) hb
    have hi₂ := hi₁.trans ((quiet_waited v₁ k).apart _).toIntact
    exact wp_bind (wp_setFile (wp_pure ⟨rfl, ⟨own', hnew⟩,
      hi₂.trans (apart_withFile (v₁.waited k) _ _).toIntact⟩))

/-- **The loop of `lfs_file_truncate_`**, up to the size or the largest one. -/
theorem wp_truncateFill {n : UInt32} (k : ℕ) (v : Volume c) (own : List UInt32) (s : Contents)
    (h : Opened c v comm own s) (hend : s.pos = s.bytes.length) (hn : s.pos ≤ n.toNat)
    (hk : n.toNat - s.pos ≤ k) :
    wp v.env.Bad (truncateFill n k)
      (fun res v' =>
        if n.toNat ≤ v.lim.fileMax.toNat then
          res = 0 ∧ Leads c v comm { s with bytes := padTo s.bytes n.toNat, pos := n.toNat } v'
        else
          res = errFbig ∧ Leads c v comm
            { s with bytes := padTo s.bytes v.lim.fileMax.toNat, pos := v.lim.fileMax.toNat } v')
      (Fails v comm) v := by
  have hle := h.pos_le
  have hlim := fileMax_le v.lim
  have hpos := h.pos
  induction k generalizing v own s with
  | zero =>
    have hsame : s.pos = n.toNat := by omega
    refine wp_pure ?_
    rw [if_pos (by omega), padTo_of_le (by omega), ← hsame]
    exact ⟨rfl, ⟨own, h⟩, Intact.refl _ v⟩
  | succ k ih =>
    unfold truncateFill
    refine wp_bind (wp_look ?_)
    by_cases hmore : v.file.pos < n
    swap
    · have hstop := UInt32.le_iff_toNat_le.1 (UInt32.not_lt.1 hmore)
      have hsame : s.pos = n.toNat := by omega
      rw [if_neg hmore]
      refine wp_pure ?_
      rw [if_pos (by omega), padTo_of_le (by omega), ← hsame]
      exact ⟨rfl, ⟨own, h⟩, Intact.refl _ v⟩
    have hlt := UInt32.lt_iff_toNat_lt.1 hmore
    rw [if_pos hmore]
    have hplace : s.place = s.pos := if_neg fun hno => by omega
    refine wp_then (wp_fileWrite [0] h (by decide)) ?_ fun e v' he => he
    rintro res v₁ ⟨hres, hleads⟩
    simp only [Contents.out, Contents.step, hplace, List.length_singleton] at hres hleads
    by_cases hfull : v.lim.fileMax.toNat < s.pos + 1
    · rw [if_pos hfull] at hres hleads
      obtain rfl := Reply.code.inj hres
      have hsame : s.pos = v.lim.fileMax.toNat := by omega
      rw [if_pos (by decide)]
      refine wp_pure ?_
      rw [if_neg (by omega), padTo_of_le (by omega), ← hsame]
      exact ⟨rfl, hleads⟩
    · rw [if_neg hfull] at hres hleads
      obtain rfl := Reply.code.inj hres
      obtain ⟨⟨own₁, h₁⟩, hi⟩ := hleads
      have hput : put (padTo s.bytes s.pos) s.pos [0] = s.bytes ++ [0] := by
        rw [padTo_of_le hend.le, hend, put_length]
      rw [hput] at h₁
      rw [if_neg (by decide)]
      have hrest := ih v₁ own₁ _ h₁ (by rw [List.length_append, hend]; rfl)
        (by show s.pos + 1 ≤ _; omega) (by show n.toNat - (s.pos + 1) ≤ k; omega)
        h₁.pos_le (fileMax_le _) h₁.pos
      rw [hi.env, hi.lim] at hrest
      refine wp_mono hrest ?_ fun e v' he => he.after hi
      intro res v' hpost
      split
      · next hfit =>
        rw [if_pos hfit, padTo_snoc (by omega)] at hpost
        exact ⟨hpost.1, hpost.2.trans hi⟩
      · next hfit =>
        rw [if_neg hfit, padTo_snoc (by omega)] at hpost
        exact ⟨hpost.1, hpost.2.trans hi⟩

/-- **The size is changed**, and the file is left anywhere. -/
theorem wp_truncateTo {n : UInt32} (h : Opened c v comm own s) :
    wp v.env.Bad (truncateTo n)
      (fun res v' =>
        if s.bytes.length < n.toNat ∧ v.lim.fileMax.toNat < n.toNat then
          res = errFbig ∧ Leads c v comm
            { s with bytes := padTo s.bytes v.lim.fileMax.toNat, pos := v.lim.fileMax.toNat } v'
        else
          res = 0 ∧ ∃ p, Leads c v comm
            { s with
              bytes := if n.toNat ≤ s.bytes.length then s.bytes.take n.toNat
                else padTo s.bytes n.toNat
              pos := p } v')
      (Fails v comm) v := by
  have hlen := h.length_le
  have hsize := h.stands.fileSize
  unfold truncateTo
  refine wp_bind (wp_look ?_)
  by_cases hless : n < v.file.fileSize
  · have hlt := UInt32.lt_iff_toNat_lt.1 hless
    rw [hsize] at hlt
    rw [if_pos hless]
    refine wp_mono (wp_truncateShrink h hlt) ?_ fun e v' he => he
    rintro res v' ⟨rfl, hleads⟩
    rw [if_neg (by omega), if_pos hlt.le]
    exact ⟨rfl, _, hleads⟩
  have hle := UInt32.le_iff_toNat_le.1 (UInt32.not_lt.1 hless)
  rw [hsize] at hle
  rw [if_neg hless]
  by_cases hmore : v.file.fileSize < n
  · have hlt := UInt32.lt_iff_toNat_lt.1 hmore
    rw [hsize] at hlt
    rw [if_pos hmore]
    unfold truncateGrow
    have hseek := wp_fileSeek h 0 .seekEnd
    have hto : s.target 0 .seekEnd = s.bytes.length := by
      show (s.bytes.length : ℤ) + 0 = _
      exact Int.add_zero _
    have hin : 0 ≤ (s.bytes.length : ℤ) ∧ (s.bytes.length : ℤ) ≤ v.lim.fileMax.toNat := by omega
    simp only [Contents.out, Contents.step, hto, if_pos hin, Int.toNat_natCast] at hseek
    refine wp_then hseek ?_ fun e v' he => he
    rintro res v₁ ⟨hres, ⟨own₁, h₁⟩, hi₁⟩
    obtain rfl := Reply.code.inj hres
    rw [if_neg (by omega)]
    refine wp_bind (wp_look ?_)
    have hpos : v₁.file.pos.toNat = s.bytes.length := h₁.pos
    have hfill := wp_truncateFill (n := n) (n.toNat - v₁.file.pos.toNat) v₁ own₁ _ h₁ rfl hlt.le
      (by show n.toNat - s.bytes.length ≤ _; omega)
    rw [hi₁.env, hi₁.lim] at hfill
    refine wp_mono hfill ?_ fun e v' he => he.after hi₁
    intro res v' hpost
    by_cases hfit : n.toNat ≤ v.lim.fileMax.toNat
    · rw [if_pos hfit] at hpost
      rw [if_neg (by omega), if_neg (by omega)]
      exact ⟨hpost.1, _, hpost.2.trans hi₁⟩
    · rw [if_neg hfit] at hpost
      rw [if_pos (by omega)]
      exact ⟨hpost.1, hpost.2.trans hi₁⟩
  · have hge := UInt32.le_iff_toNat_le.1 (UInt32.not_lt.1 hmore)
    rw [hsize] at hge
    rw [if_neg hmore]
    refine wp_pure ?_
    rw [if_neg (by omega), if_pos hge, List.take_of_length_le hle]
    exact ⟨rfl, s.pos, ⟨own, h⟩, Intact.refl _ v⟩

/-- **`lfs_file_truncate_`.** -/
theorem wp_fileTruncate {n : UInt32} (h : Opened c v comm own s) :
    wp v.env.Bad (fileTruncate n)
      (fun res v' => Reply.code res = s.out v.lim.fileMax.toNat (.truncate n) ∧
        Leads c v comm (s.step v.lim.fileMax.toNat (.truncate n)) v')
      (Fails v comm) v := by
  have hlim := fileMax_le v.lim
  have hlen := h.length_le
  have hsize := h.stands.fileSize
  unfold fileTruncate
  simp only [Contents.out, Contents.step]
  by_cases hbig : 0x7fffffff < n
  · rw [if_pos hbig, if_pos hbig, if_pos hbig]
    exact wp_pure ⟨rfl, ⟨own, h⟩, Intact.refl _ v⟩
  rw [if_neg hbig, if_neg hbig, if_neg hbig]
  refine wp_bind (wp_look (wp_then (wp_truncateTo h) ?_ fun e v' he => he))
  rintro res v₁ hto
  have hback : v.file.pos ≤ v.lim.fileMax :=
    UInt32.le_iff_toNat_le.2 (by rw [h.pos]; exact h.pos_le)
  by_cases hfull : s.bytes.length < n.toNat ∧ v.lim.fileMax.toNat < n.toNat
  · rw [if_pos hfull] at hto ⊢
    obtain ⟨rfl, hleads⟩ := hto
    rw [if_pos (by decide), if_neg (by omega), if_neg (by omega)]
    exact wp_pure ⟨rfl, hleads⟩
  · rw [if_neg hfull] at hto ⊢
    obtain ⟨rfl, p, ⟨own₁, h₁⟩, hi₁⟩ := hto
    rw [if_neg (by decide)]
    have hseek := wp_seekTo h₁ (p := v.file.pos) (by rw [hi₁.lim]; exact hback)
    rw [hi₁.env] at hseek
    refine wp_then hseek ?_ fun e v' he => he.after hi₁
    rintro res v₂ ⟨rfl, hleads⟩
    rw [if_neg (by omega)]
    refine wp_pure ⟨rfl, ?_⟩
    have hleads := hleads.trans hi₁
    rw [h.pos] at hleads
    split
    · next hle =>
      rw [if_pos hle] at hleads
      exact hleads
    · next hgt =>
      rw [if_neg hgt] at hleads
      rw [if_pos (by omega)]
      exact hleads

end Boatdash.Lfs
