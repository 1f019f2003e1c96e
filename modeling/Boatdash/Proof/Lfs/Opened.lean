import Boatdash.Spec.Lfs.Calls
import Boatdash.Proof.Lfs.Flush

/-!
# An open file and its contents

`Opened`: the volume stands for the contents `s` of the open file. It says where the bytes are
(`Stands`), where the file is read (`Placed`), and that the committed version holds the bytes that
were saved last, none of which is still in a cache (`Saved`).

`wp_fileRead` is the first call that keeps it: **a read returns what there is at the position**.
-/

namespace Boatdash.Lfs

open Prog Overwrite

variable {c : Config} {v v' v'' : Volume c} {comm comm' own own' : List UInt32}
  {bytes saved : List UInt8} {s s' : Contents} {f : File}

/-! ## The committed version -/

/-- The bytes of the committed version, as it is in its directory. -/
inductive Version (c : Config) (v : Volume c) (comm : List UInt32) (saved : List UInt8) : Prop
  | inlineStruct (entry : v.entry = .inlineStruct saved) (none : comm = [])
    (fits : saved.length ≤ v.lim.inlineMax.toNat)
  | ctzStruct (head size : UInt32) (entry : v.entry = .ctzStruct head size)
    (length : size.toNat = saved.length) (chain : Chain c v.mem comm head size)
    (holds : Holds c v.mem comm saved)

/-- The committed version holds the bytes `saved`; nothing of it, or of other files, is in a
cache, or in a block of a directory. -/
structure Saved (c : Config) (v : Volume c) (comm : List UInt32) (saved : List UInt8) : Prop where
  version : Version c v comm saved
  flushed : ∀ b, b ∈ v.tree ∨ b ∈ comm → b ∉ v.unflushed
  synced : ∀ b, b ∈ v.tree ∨ b ∈ comm → b ∉ v.unsynced
  outside : ∀ b, b ∈ v.tree ∨ b ∈ comm → b ∉ v.dirs
  length_le : saved.length ≤ v.lim.fileMax.toNat

theorem mem_base {b : UInt32} : b ∈ v.using comm [] [] ↔ b ∈ v.others ∨ b ∈ comm := by
  rw [mem_using]
  simp

/-- The blocks of files are used. -/
theorem base_of {b : UInt32} (h : b ∈ v.tree ∨ b ∈ comm) : b ∈ v.using comm [] [] :=
  mem_base.2 (h.imp (fun h => mem_others.2 (.inl h)) id)

theorem Version.entry_chain (h : Version c v comm saved) (head size : UInt32)
    (he : v.entry = .ctzStruct head size) : Chain c v.mem comm head size := by
  cases h with
  | inlineStruct entry => cases entry.symm.trans he
  | ctzStruct head' size' entry length chain holds =>
    cases entry.symm.trans he
    exact chain

theorem Version.inline_nil (h : Version c v comm saved) (data : List UInt8)
    (he : v.entry = .inlineStruct data) : comm = [] := by
  cases h with
  | inlineStruct entry none => exact none
  | ctzStruct head size entry => cases entry.symm.trans he

theorem Version.congr (h : Version c v comm saved) (hmem : ∀ b ∈ comm, v'.mem b = v.mem b)
    (he : v'.entry = v.entry) (hl : v'.lim = v.lim) : Version c v' comm saved := by
  cases h with
  | inlineStruct entry none fits =>
    exact .inlineStruct (he.trans entry) none (by rw [hl]; exact fits)
  | ctzStruct head size entry length chain holds =>
    exact .ctzStruct head size (he.trans entry) length (chain.congr hmem) (holds.congr hmem)

theorem Saved.intact (h : Saved c v comm saved) (hi : Intact ↑(v.using comm [] []) v v') :
    Saved c v' comm saved := by
  refine ⟨h.version.congr (fun b hb => hi.mem b (Finset.mem_coe.2 (base_of (.inr hb)))) hi.entry
    hi.lim, ?_, ?_, ?_, by rw [hi.lim]; exact h.length_le⟩
  · rw [hi.tree]
    exact fun b hb hin => h.flushed b hb (hi.unflushed b (Finset.mem_coe.2 (base_of hb)) hin)
  · rw [hi.tree]
    intro b hb hin
    rcases hi.unsynced b (Finset.mem_coe.2 (base_of hb)) hin with hin | hin
    · exact h.flushed b hb hin
    · exact h.synced b hb hin
  · rw [hi.tree, hi.dirs]
    exact h.outside

/-! ## The open file -/

/-- **The volume stands for the contents `s`** of the open file. -/
structure Opened (c : Config) (v : Volume c) (comm own : List UInt32) (s : Contents) : Prop where
  stands : Stands c v comm own s.bytes
  placed : v.file.writing = false → Placed c v.file own
  alone : v.file.writing = true → v.file.reading = false
  pos : v.file.pos.toNat = s.pos
  pos_le : s.pos ≤ v.lim.fileMax.toNat
  length_le : s.bytes.length ≤ v.lim.fileMax.toNat
  erred : v.file.erred = false
  append : v.file.append = s.append
  appended : s.append = true → v.file.writing = true → s.bytes.length ≤ s.pos
  saved : Saved c v comm s.saved
  clean : v.file.dirty = false → v.file.writing = false → s.bytes = s.saved

/-- Code that led to the contents `s'`, and wrote nothing of what is committed. -/
def Leads (c : Config) (v : Volume c) (comm : List UInt32) (s' : Contents) (v' : Volume c) : Prop :=
  (∃ own', Opened c v' comm own' s') ∧ Intact ↑(v.using comm [] []) v v'

theorem Leads.trans (h' : Leads c v' comm s' v'') (h : Intact ↑(v.using comm [] []) v v') :
    Leads c v comm s' v'' :=
  ⟨h'.1, h.andThen h'.2⟩

theorem fileMax_le (lim : Limits c) : lim.fileMax.toNat ≤ 0x7fffffff :=
  UInt32.le_iff_toNat_le.1 lim.file_max

/-- The size of the file is that of its contents. -/
theorem Stands.fileSize (h : Stands c v comm own bytes) :
    v.file.fileSize.toNat = bytes.length := by
  rw [toNat_fileSize]
  cases h with
  | idle h =>
    rw [h.writing]
    exact h.size
  | branched h hold =>
    rw [if_pos h.writing, length_overlay, h.pos, hold.size]
    exact Nat.max_comm ..
  | inCache h =>
    rw [← toNat_fileSize]
    exact h.length.symm

theorem Stands.size (h : Stands c v comm own bytes) (hw : v.file.writing = false) :
    v.file.size.toNat = bytes.length := by
  have hsize := toNat_fileSize v.file
  rw [hw] at hsize
  exact hsize.symm.trans h.fileSize

/-- A file that is written is written behind its beginning. -/
theorem Stands.pos_ne (h : Stands c v comm own bytes) (hw : v.file.writing = true) :
    v.file.pos ≠ 0 := by
  cases h with
  | idle h => exact absurd (h.writing.symm.trans hw) (by decide)
  | branched h =>
    intro h0
    have hpos := h.pos
    rw [h0] at hpos
    exact h.nonempty (List.eq_nil_of_length_eq_zero hpos.symm)
  | inCache h => exact (h.at_pos hw).2

/-- The allocator knows what the committed version has. -/
theorem Stands.ready (h : Stands c v comm own bytes) : Ready c v.la (v.using comm [] []) ∅ := by
  cases h with
  | idle h => exact h.ready.settle (fun _ => .inl) fun _ hx => (nomatch hx)
  | branched h => exact h.ready.settle (fun _ => .inl) fun _ hx => (nomatch hx)
  | inCache h => exact h.ready

/-- A file that is not written can be read. -/
theorem Stands.readable (h : Stands c v comm own bytes) (hw : v.file.writing = false)
    (hplaced : Placed c v.file own) : Readable c v.mem v.file own bytes := by
  have hsize := h.size hw
  cases h with
  | idle h =>
    exact ⟨hsize, fun hin => absurd (h.blocks.symm.trans hin) (by decide), fun _ => h.chain,
      fun _ => h.holds, hplaced⟩
  | branched h => exact absurd (hw.symm.trans h.writing) (by decide)
  | inCache h =>
    have hfits := UInt32.le_iff_toNat_le.1 h.fits
    have hlim := inlineMax_lt v.lim
    have hbsize := c.bsize_ge
    have hlen := h.length
    refine ⟨hsize, fun _ => ⟨by omega, fun p a ha => ?_⟩,
      fun hin => absurd (hin.symm.trans h.inlined) (by decide),
      fun hin => absurd (hin.symm.trans h.inlined) (by decide), hplaced⟩
    have hp := (List.getElem?_eq_some_iff.1 ha).1
    rw [← h.bytes_eq, getElem?_bytesAt (by omega), Nat.zero_add] at ha
    exact Option.some.inj ha

/-- The place where a file is read moves. -/
theorem Opened.move (h : Opened c v comm own s) (hw : v.file.writing = false)
    (hs : v.file.Stays f) (hplaced : Placed c f own) {p : ℕ} (hpos : f.pos.toNat = p)
    (hle : p ≤ v.lim.fileMax.toNat) (n : ℕ) :
    Opened c ((v.waited n).withFile f) comm own { s with pos := p } := by
  have hwriting : f.writing = false := by rw [hs.writing, hw]
  have hi : Intact ↑(v.using comm [] []) v ((v.waited n).withFile f) :=
    ((quiet_waited v n).apart _).toIntact.trans (apart_withFile _ f _).toIntact
  refine ⟨h.stands.stays hw hs n, fun _ => hplaced, fun hon => absurd (hwriting.symm.trans hon)
    (by decide), hpos, hle, h.length_le, hs.erred.trans h.erred, hs.append.trans h.append,
    fun _ hon => absurd (hwriting.symm.trans hon) (by decide), h.saved.intact hi, fun hd _ => ?_⟩
  exact h.clean (hs.dirty.symm.trans hd) hw

/-! ## Flushing and reading -/

theorem wp_flushOpened (h : Opened c v comm own s) :
    wp v.env.Bad fileFlush
      (fun _ v' => Leads c v comm s v' ∧ v'.file.writing = false ∧ v'.file.reading = false ∧
        v'.file.pos = v.file.pos)
      (Fails v comm) v := by
  refine wp_mono (wp_fileFlush h.stands) ?_ fun e v' he => he
  rintro - v' ⟨own', hf⟩
  refine ⟨⟨⟨own', hf.stands, fun _ => ⟨fun hon => ?_, fun hon => ?_⟩, fun _ => hf.reading, ?_, ?_,
    ?_, hf.erred.trans h.erred, hf.append.trans h.append, fun _ hon => ?_,
    h.saved.intact hf.intact, fun hd _ => ?_⟩, hf.intact⟩, hf.writing, hf.reading, hf.pos⟩
  · exact absurd (hf.reading.symm.trans hon) (by decide)
  · exact absurd (hf.reading.symm.trans hon) (by decide)
  · rw [hf.pos]
    exact h.pos
  · rw [hf.intact.lim]
    exact h.pos_le
  · rw [hf.intact.lim]
    exact h.length_le
  · exact absurd (hf.writing.symm.trans hon) (by decide)
  · rw [hf.dirty, Bool.or_eq_false_iff] at hd
    exact h.clean hd.1 hd.2

/-- A flush that is not always needed. -/
theorem wp_flushIf {on : File → Bool} (h : Opened c v comm own s) :
    wp v.env.Bad (flushIf on)
      (fun _ v' => Leads c v comm s v' ∧
        (v' = v ∧ on v.file = false ∨ v'.file.writing = false ∧ v'.file.reading = false))
      (Fails v comm) v := by
  unfold flushIf
  refine wp_bind (wp_look ?_)
  by_cases hon : on v.file = true
  · rw [if_pos hon]
    refine wp_mono (wp_flushOpened h) ?_ fun e v' he => he
    rintro - v' ⟨hleads, hw, hr, -⟩
    exact ⟨hleads, .inr ⟨hw, hr⟩⟩
  · rw [if_neg hon]
    exact wp_pure ⟨⟨⟨own, h⟩, Intact.refl _ v⟩, .inl ⟨rfl, Bool.eq_false_iff.2 hon⟩⟩

/-- **A read of a file that is not written.** -/
theorem wp_readOpened {n : UInt32} (h : Opened c v comm own s) (hw : v.file.writing = false) :
    wp v.env.Bad (flushedRead .file n)
      (fun data v' => data = s.ahead n.toNat ∧
        Leads c v comm { s with pos := s.pos + data.length } v' ∧ v'.file.writing = false)
      (Fails v comm) v := by
  have hread := h.stands.readable hw (h.placed hw)
  refine wp_mono (wp_flushedRead (h := .file) hread) ?_ ?_
  rotate_left
  · rintro e v' ⟨he, k, f, rfl⟩
    exact ⟨.inl he, intact_withHandle _ v k .file f⟩
  rintro data v' ⟨hdata, k, f, rfl, hs, hr⟩
  have hpos : (v.handle .file).pos.toNat = s.pos := h.pos
  rw [hpos] at hdata
  refine ⟨hdata, ⟨⟨own, h.move hw hs.toStays hr.placed ?_ ?_ k⟩, ?_⟩, hs.writing.trans hw⟩
  · rw [hs.pos, hpos]
  · have hlen := h.length_le
    have hle := h.pos_le
    rw [hdata, List.length_take, List.length_drop]
    omega
  · exact intact_withHandle _ v k .file f

/-- **`lfs_file_read_`.** -/
theorem wp_fileRead {n : UInt32} (h : Opened c v comm own s) :
    wp v.env.Bad (fileRead n)
      (fun data v' => data = s.ahead n.toNat ∧
        Leads c v comm { s with pos := s.pos + data.length } v')
      (Fails v comm) v := by
  unfold fileRead
  refine wp_then (wp_flushIf h) ?_ fun e v' he => he
  rintro - v₁ ⟨⟨⟨own₁, h₁⟩, hi⟩, hflush⟩
  have hw : v₁.file.writing = false := by
    rcases hflush with ⟨rfl, hw⟩ | ⟨hw, -⟩
    · exact hw
    · exact hw
  have hread := wp_readOpened (n := n) h₁ hw
  rw [hi.env] at hread
  refine wp_mono hread ?_ fun e v' he => he.after hi
  rintro data v' ⟨hdata, hleads, -⟩
  exact ⟨hdata, hleads.trans hi⟩

end Boatdash.Lfs
