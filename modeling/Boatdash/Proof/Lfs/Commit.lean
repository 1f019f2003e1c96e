import Boatdash.Proof.Lfs.Opened

/-!
# Committing a file

The code for the directories writes their blocks, takes new ones and gives others up, and at some
time what it commits is there. Whatever it does, and wherever it fails, **the committed version is
the one from before or the one that was to be committed**, and the blocks of other files are as they
were: `Commits`, which every step keeps (`wp_dirStep`).

`wp_fileSync`: **after a sync the bytes of the file are the saved ones.**
-/

namespace Boatdash.Lfs

open Prog Overwrite

variable {c : Config} {v v' v'' : Volume c} {comm comm' own : List UInt32}
  {bytes saved prior due : List UInt8} {s : Contents} {entry : Entry} {w : Prop}

/-! ## The other files -/

/-- The other files stay as they are. -/
structure Around (v v' : Volume c) : Prop where
  tree : v'.tree = v.tree
  mem : ∀ b ∈ v.tree, v'.mem b = v.mem b
  env : v'.env = v.env
  lim : v'.lim = v.lim

theorem Around.refl (v : Volume c) : Around v v := ⟨rfl, fun _ _ => rfl, rfl, rfl⟩

theorem Around.trans (h : Around v v') (h' : Around v' v'') : Around v v'' :=
  ⟨h'.tree.trans h.tree, fun b hb => (h'.mem b (h.tree ▸ hb)).trans (h.mem b hb),
    h'.env.trans h.env, h'.lim.trans h.lim⟩

theorem Intact.around (h : Intact ↑(v.using comm [] []) v v') : Around v v' :=
  ⟨h.tree, fun b hb => h.mem b (Finset.mem_coe.2 (base_of (.inl hb))), h.env, h.lim⟩

/-- How a call fails: by the last call of the device, or for want of space. The saved bytes are those
from before it, or those that it was to leave. -/
def Breaks (c : Config) (v : Volume c) (before after : List UInt8) (e : Stop) (v' : Volume c) :
    Prop :=
  v'.Failed e ∧ (∃ comm b, Saved c v' comm b ∧ (b = before ∨ b = after)) ∧ Around v v'

theorem Fails.breaks {e : Stop} (he : Fails v comm e v') (h : Saved c v comm saved) :
    Breaks c v saved due e v' :=
  ⟨he.1, ⟨comm, saved, h.intact he.2, .inl rfl⟩, he.2.around⟩

theorem Breaks.after {v₁ : Volume c} {e : Stop} (h : Breaks c v₁ prior due e v')
    (ha : Around v v₁) : Breaks c v prior due e v' := ⟨h.1, h.2.1, ha.trans h.2.2⟩

/-- What was to be saved is saved already. -/
theorem Breaks.done {e : Stop} (h : Breaks c v due due e v') : Breaks c v prior due e v' := by
  obtain ⟨he, ⟨comm, b, hsaved, hb⟩, ha⟩ := h
  exact ⟨he, ⟨comm, b, hsaved, .inr (hb.elim id id)⟩, ha⟩

theorem Breaks.withFile {e : Stop} (h : Breaks c v prior due e v') (f : File) :
    Breaks c v prior due e (v'.withFile f) := by
  obtain ⟨he, ⟨comm, b, hsaved, hb⟩, ha⟩ := h
  exact ⟨he, ⟨comm, b, hsaved.intact (apart_withFile v' f _).toIntact, hb⟩,
    ha.trans ⟨rfl, fun _ _ => rfl, rfl, rfl⟩⟩

/-! ## One step of the directories -/

/-- The volume with another committed version. -/
def Volume.withEntry (v : Volume c) (entry : Entry) : Volume c := { v with entry := entry }

/-- Only the directories differ, and what the allocator knows: the blocks of files have the same
bytes, and are in no cache if they were not. -/
structure Beside (v v' : Volume c) : Prop where
  mem : ∀ b, b ∉ v.dirs → v'.mem b = v.mem b
  unflushed : ∀ b ∈ v'.unflushed, b ∈ v.unflushed
  unsynced : ∀ b ∈ v'.unsynced, b ∈ v.unflushed ∨ b ∈ v.unsynced
  env : v'.env = v.env
  lim : v'.lim = v.lim
  tree : v'.tree = v.tree
  entry : v'.entry = v.entry
  file : v'.file = v.file

theorem Beside.withEntry (h : Beside v v') (entry : Entry) :
    Beside (v.withEntry entry) (v'.withEntry entry) :=
  ⟨h.mem, h.unflushed, h.unsynced, h.env, h.lim, h.tree, rfl, h.file⟩

/-- What is saved stays, beside new blocks of the directories. -/
theorem Saved.beside (h : Saved c v comm saved) (hb : Beside v v')
    (hdirs : ∀ b ∈ v'.dirs, b ∈ v.dirs ∨ b ∉ v.tree ∧ b ∉ comm) : Saved c v' comm saved := by
  refine ⟨h.version.congr (fun b hin => hb.mem b (h.outside b (.inr hin))) hb.entry hb.lim,
    ?_, ?_, ?_, by rw [hb.lim]; exact h.length_le⟩
  · rw [hb.tree]
    exact fun b hin hcache => h.flushed b hin (hb.unflushed b hcache)
  · rw [hb.tree]
    exact fun b hin hcache => (hb.unsynced b hcache).elim (h.flushed b hin) (h.synced b hin)
  · rw [hb.tree]
    intro b hin hdir
    rcases hdirs b hdir with hdir | ⟨htree, hcomm⟩
    · exact h.outside b hin hdir
    · exact hin.elim htree hcomm

/-- So does what a traversal finds. -/
theorem Shown.beside {br : List UInt32} (h : Shown v comm own br) (hb : Beside v v')
    (hcomm : ∀ b ∈ comm, b ∉ v.dirs)
    (hdirs : ∀ b ∈ v'.dirs, b ∈ v.dirs ∨ b ∉ own ∧ b ∉ br) : Shown v' comm own br := by
  have hown : ∀ b ∈ own, v'.mem b = v.mem b := fun b hin => hb.mem b (h.outside b (.inl hin))
  have hbr : ∀ b ∈ br, v'.mem b = v.mem b := fun b hin => hb.mem b (h.outside b (.inr hin))
  refine ⟨?_, ?_, ?_, ?_, ?_, ?_, ?_⟩
  · intro head size he
    rw [hb.entry] at he
    exact (h.entry head size he).congr fun b hin => hb.mem b (hcomm b hin)
  · rw [hb.entry]
    exact h.inline
  · rw [hb.file]
    exact fun hd hi => (h.dirty hd hi).congr hown
  · rw [hb.file]
    exact h.clean
  · rw [hb.file]
    exact fun hw hi hn => (h.written hw hi hn).congr hbr
  · rw [hb.file]
    exact h.unwritten
  · intro b hin hdir
    rcases hdirs b hdir with hdir | ⟨hnown, hnbr⟩
    · exact h.outside b hin hdir
    · exact hin.elim hnown hnbr

/-- The committed version, with the blocks `own` of the open file beside it. -/
structure Current (c : Config) (v : Volume c) (comm own : List UInt32) (saved : List UInt8) : Prop
    extends Saved c v comm saved where
  shown : Shown v comm own []
  ready : Ready c v.la (v.using comm own []) ∅

/-- The committed version holds `prior` or `due`, and `entry` is a version with `due` in the blocks
`own`. The open file is not written. -/
structure Commits (c : Config) (v : Volume c) (own : List UInt32) (entry : Entry)
    (prior due : List UInt8) : Prop where
  writing : v.file.writing = false
  now : ∃ comm saved, Current c v comm own saved ∧ (saved = prior ∨ saved = due)
  next : Saved c (v.withEntry entry) own due

/-- What is so on the way, up to `v'`. -/
structure Passes (c : Config) (v : Volume c) (own : List UInt32) (entry : Entry)
    (prior due : List UInt8) (v' : Volume c) : Prop
    extends Commits c v' own entry prior due where
  around : Around v v'
  file : v'.file = v.file

theorem Commits.passes (h : Commits c v own entry prior due) :
    Passes c v own entry prior due v := ⟨h, Around.refl v, rfl⟩

theorem Passes.trans (h : Passes c v own entry prior due v')
    (h' : Passes c v' own entry prior due v'') : Passes c v own entry prior due v'' :=
  ⟨h'.toCommits, h.around.trans h'.around, h'.file.trans h.file⟩

theorem Passes.breaks {e : Stop} (h : Passes c v own entry prior due v') (he : v'.Failed e) :
    Breaks c v prior due e v' := by
  obtain ⟨comm, saved, hnow, hwhich⟩ := h.now
  exact ⟨he, ⟨comm, saved, hnow.toSaved, hwhich⟩, h.around⟩

/-- Blocks that are not used are none of the files. -/
theorem unused_file {b : UInt32} (h : b ∉ v.using comm own []) : (b ∉ v.tree ∧ b ∉ comm) ∧ b ∉ own :=
  ⟨⟨fun hb => h (mem_using.2 (.inl (mem_others.2 (.inl hb)))),
    fun hb => h (mem_using.2 (.inr (.inl hb)))⟩, fun hb => h (mem_using.2 (.inr (.inr (.inl hb))))⟩

/-- **Only the directories change**, with new blocks that were free. -/
theorem Commits.beside (h : Commits c v own entry prior due)
    (hnow : Current c v comm own saved) (hwhich : saved = prior ∨ saved = due) (hb : Beside v v')
    (hready : Ready c v'.la (v'.using comm own []) ∅)
    (hdirs : ∀ b ∈ v'.dirs, b ∈ v.dirs ∨ b ∉ v.using comm own []) :
    Passes c v own entry prior due v' := by
  have hfree : ∀ b ∈ v'.dirs, b ∈ v.dirs ∨ (b ∉ v.tree ∧ b ∉ comm) ∧ b ∉ own :=
    fun b hin => (hdirs b hin).imp_right unused_file
  refine ⟨⟨by rw [hb.file]; exact h.writing, ⟨comm, saved, ⟨?_, ?_, hready⟩, hwhich⟩, ?_⟩, ?_, hb.file⟩
  · exact hnow.toSaved.beside hb fun b hin => (hfree b hin).imp_right And.left
  · exact hnow.shown.beside hb (fun b hin => hnow.outside b (.inr hin))
      fun b hin => (hfree b hin).imp_right fun hno => ⟨hno.2, List.not_mem_nil⟩
  · exact h.next.beside (hb.withEntry entry)
      fun b hin => (hfree b hin).imp_right fun hno => ⟨hno.1.1, hno.2⟩
  · exact ⟨hb.tree, fun b hin => hb.mem b (hnow.outside b (.inl hin)), hb.env, hb.lim⟩

/-- **It lands**: the version is there. -/
theorem Commits.land (h : Commits c v own entry prior due) :
    Passes c v own entry prior due (v.withEntry entry) ∧
      Current c (v.withEntry entry) own own due := by
  obtain ⟨comm, saved, hnow, -⟩ := h.now
  have hshown : Shown (v.withEntry entry) own own [] := by
    refine ⟨h.next.version.entry_chain, h.next.version.inline_nil, hnow.shown.dirty,
      fun _ b hin => hin, fun hon => ?_, hnow.shown.unwritten, hnow.shown.outside⟩
    exact absurd (h.writing.symm.trans hon) (by decide)
  have hready : Ready c v.la ((v.withEntry entry).using own own []) ∅ :=
    hnow.ready.settle (fun _ hx => .inr (.inl hx)) fun _ hx => .inr (.inl hx)
  have hcurrent : Current c (v.withEntry entry) own own due := ⟨h.next, hshown, hready⟩
  exact ⟨⟨⟨h.writing, ⟨own, due, hcurrent, .inr rfl⟩, h.next⟩, ⟨rfl, fun _ _ => rfl, rfl, rfl⟩, rfl⟩,
    hcurrent⟩

theorem quiet_beside (h : Quiet v v') : Beside v v' :=
  ⟨fun b _ => h.mem b (Set.mem_univ b), fun b => h.unflushed b (Set.mem_univ b),
    fun b => h.unsynced b (Set.mem_univ b), h.env, h.lim, h.tree, h.entry, h.file⟩

/-- The volume with other blocks of the directories. -/
def Volume.withDirs (v : Volume c) (dirs : List UInt32) : Volume c := { v with dirs := dirs }

theorem beside_withDirs (h : Beside v v') (dirs : List UInt32) : Beside v (v'.withDirs dirs) :=
  ⟨h.mem, h.unflushed, h.unsynced, h.env, h.lim, h.tree, h.entry, h.file⟩

/-- What is used, with other blocks of the directories. -/
theorem mem_using_withDirs {dirs : List UInt32} {b : UInt32} :
    b ∈ (v.withDirs dirs).using comm own [] ↔ b ∈ v.tree ∨ b ∈ dirs ∨ b ∈ comm ∨ b ∈ own := by
  rw [mem_using, mem_others]
  simp [Volume.withDirs, or_assoc]

/-- **One step of the directories.** -/
theorem wp_dirStep (h : Commits c v own entry prior due) (step : DirStep) :
    wp w (dirStep entry step) (fun _ v' => Passes c v own entry prior due v')
      (Breaks c v prior due) v := by
  obtain ⟨comm, saved, hnow, hwhich⟩ := id h.now
  cases step with
  | write b bytes =>
    refine wp_update ?_
    by_cases hb : b ∈ v.dirs
    · rw [if_pos hb]
      have hbeside : Beside v { v with mem := fun b' => if b' = b then bytes else v.mem b' } :=
        ⟨fun x hx => if_neg fun (hxb : x = b) => hx (hxb ▸ hb), fun _ => id, fun _ => .inr, rfl, rfl, rfl, rfl, rfl⟩
      exact h.beside hnow hwhich hbeside hnow.ready fun b hin => .inl hin
    · rw [if_neg hb]
      exact h.passes
  | take =>
    refine wp_then (wp_volAlloc hnow.ready (visible_of hnow.shown (.inr (between_of h.writing)))) ?_ ?_
    rotate_left
    · rintro e v' ⟨he, hready, hq⟩
      have hpasses := h.beside hnow hwhich (quiet_beside hq)
        (by rw [using_eq hq.tree hq.dirs]; exact hready) fun b hin => .inl (hq.dirs ▸ hin)
      exact hpasses.breaks he
    rintro nb v₁ ⟨-, hfree, -, hready, hq⟩
    refine wp_bind (wp_look (wp_update ?_))
    refine h.beside hnow hwhich (beside_withDirs (quiet_beside hq) (nb :: v₁.dirs)) ?_ fun b hin => ?_
    · refine hready.mono (fun x hx => ?_) (Finset.empty_subset _)
      replace hx := mem_using_withDirs.1 hx
      rw [hq.tree, hq.dirs] at hx
      rw [Finset.mem_union, Finset.mem_insert, mem_using, mem_others]
      rcases hx with hx | hx | hx | hx
      · exact .inl (.inl (.inl hx))
      · rcases List.mem_cons.1 hx with rfl | hx
        · exact .inr (.inl rfl)
        · exact .inl (.inl (.inr hx))
      · exact .inl (.inr (.inl hx))
      · exact .inl (.inr (.inr (.inl hx)))
    · rcases List.mem_cons.1 hin with rfl | hin
      · exact .inr hfree
      · exact .inl (hq.dirs ▸ hin)
  | free b =>
    refine wp_bind (wp_look (wp_update ?_))
    refine h.beside hnow hwhich
      (beside_withDirs (quiet_beside (Quiet.refl v)) (v.dirs.filter (· ≠ b))) ?_
      fun x hin => .inl (List.mem_of_mem_filter hin)
    refine hnow.ready.mono (fun x hx => Finset.mem_union_left _ ?_) (Finset.Subset.refl _)
    rw [mem_using, mem_others]
    rcases mem_using_withDirs.1 hx with hx | hx | hx | hx
    · exact .inl (.inl hx)
    · exact .inl (.inr (List.mem_of_mem_filter hx))
    · exact .inr (.inl hx)
    · exact .inr (.inr (.inl hx))
  | land => exact wp_bind (wp_look (wp_update h.land.1))

/-- **All of its steps.** -/
theorem wp_dirSteps (steps : List DirStep) (v : Volume c) (h : Commits c v own entry prior due) :
    wp w (dirSteps entry steps) (fun _ v' => Passes c v own entry prior due v')
      (Breaks c v prior due) v := by
  induction steps generalizing v with
  | nil => exact wp_pure h.passes
  | cons step steps ih =>
    refine wp_then (wp_dirStep h step) ?_ fun e v' he => he
    rintro - v₁ hpasses
    refine wp_mono (ih v₁ hpasses.toCommits) ?_ fun e v' he => he.after hpasses.around
    exact fun _ v' hpasses' => hpasses.trans hpasses'

/-- **`lfs_dir_commit`.** -/
theorem wp_dirCommit (h : Commits c v own entry prior due) :
    wp w (dirCommit entry)
      (fun _ v' => Current c v' own own due ∧ v'.entry = entry ∧ Around v v' ∧ v'.file = v.file)
      (Breaks c v prior due) v := by
  unfold dirCommit
  refine wp_bind (wp_look (wp_then (wp_dirSteps _ v h) ?_ fun e v' he => he))
  rintro - v₁ h₁
  obtain ⟨comm, saved, hnow, hwhich⟩ := h₁.now
  have hq := quiet_waited v₁ 1
  have h₂ : Passes c v own entry prior due (v₁.waited 1) :=
    h₁.trans (h₁.toCommits.beside hnow hwhich (quiet_beside hq) hnow.ready fun b hin => .inl hin)
  refine wp_bind (wp_dirCall ?_ fun e he => h₂.breaks (.inl he))
  obtain ⟨hpasses, hcurrent⟩ := h₂.toCommits.land
  have hlanded := h₂.trans hpasses
  exact wp_bind (wp_look (wp_update ⟨hcurrent, rfl, hlanded.around, hlanded.file⟩))

/-! ## The commit of the open file -/

/-- What goes into the directory of a file in its blocks. -/
theorem Idle.commits (h : Idle c v comm own bytes) (hs : Saved c v comm saved)
    (hsync : ∀ b ∈ own, b ∉ v.unsynced) (hlen : bytes.length ≤ v.lim.fileMax.toNat) :
    Commits c v own v.file.entry saved bytes := by
  have hentry : v.file.entry = .ctzStruct v.file.head v.file.size := by
    unfold File.entry
    rw [h.blocks]
    rfl
  refine ⟨h.writing, ⟨comm, saved, ⟨hs, h.shown, h.ready⟩, .inl rfl⟩,
    ⟨.ctzStruct _ _ hentry h.size h.chain h.holds, fun b hb => ?_, fun b hb => ?_, fun b hb => ?_, hlen⟩⟩
  · exact hb.elim (fun hb => hs.flushed b (.inl hb)) (h.flushed b)
  · exact hb.elim (fun hb => hs.synced b (.inl hb)) (hsync b)
  · exact hb.elim (fun hb => hs.outside b (.inl hb)) fun hb => h.shown.outside b (.inl hb)

/-- What goes into the directory of an inline file are its bytes. -/
theorem InCache.commits (h : InCache c v comm bytes) (hw : v.file.writing = false)
    (hs : Saved c v comm saved) (hlen : bytes.length ≤ v.lim.fileMax.toNat) :
    Commits c v [] v.file.entry saved bytes := by
  have hsize : v.file.fileSize = v.file.size := by
    unfold File.fileSize
    rw [hw]
    rfl
  have hentry : v.file.entry = .inlineStruct bytes := by
    unfold File.entry
    rw [if_pos h.inlined, ← h.bytes_eq, hsize]
    rfl
  have hfits := UInt32.le_iff_toNat_le.1 h.fits
  have hin : ∀ b, b ∈ v.tree ∨ b ∈ ([] : List UInt32) → b ∈ v.tree ∨ b ∈ comm :=
    fun b hb => hb.elim .inl fun hb => (nomatch hb)
  exact ⟨hw, ⟨comm, saved, ⟨hs, h.shown, h.ready⟩, .inl rfl⟩,
    ⟨.inlineStruct hentry rfl (by rw [h.length]; exact hfits), fun b hb => hs.flushed b (hin b hb),
      fun b hb => hs.synced b (hin b hb), fun b hb => hs.outside b (hin b hb), hlen⟩⟩

/-- After the commit the file is not dirty. -/
theorem Current.cleaned (h : Current c v own own bytes) (hw : v.file.writing = false) :
    Current c (v.withFile { v.file with dirty := false }) own own bytes := by
  refine ⟨h.toSaved.intact (apart_withFile v _ _).toIntact, ?_, h.ready⟩
  exact ⟨h.shown.entry, h.shown.inline, fun hd => (nomatch hd), fun _ b hb => hb,
    fun hon => absurd (hw.symm.trans hon) (by decide), fun _ => rfl, h.shown.outside⟩

/-- A file whose blocks are those of the committed version. -/
theorem Current.idle (h : Current c v own own bytes) (hw : v.file.writing = false)
    (hblocks : v.file.inlined = false) (hentry : v.entry = v.file.entry) :
    Idle c v own own bytes := by
  have hctz : v.entry = .ctzStruct v.file.head v.file.size := by
    rw [hentry]
    unfold File.entry
    rw [hblocks]
    rfl
  cases h.version with
  | inlineStruct entry => cases entry.symm.trans hctz
  | ctzStruct head size entry length chain holds =>
    cases entry.symm.trans hctz
    exact ⟨hw, fun b hb => h.flushed b (.inr hb), hblocks, length, chain, holds, h.shown, h.ready⟩

/-- The file that was committed. -/
def Committed (c : Config) (v : Volume c) (own : List UInt32) (bytes : List UInt8) (v' : Volume c) :
    Prop :=
  Stands c v' own own bytes ∧ Saved c v' own bytes ∧ v'.file = { v.file with dirty := false } ∧
    Around v v'

/-- **The commit of a file in its blocks.** -/
theorem Idle.wp_commitFile (h : Idle c v comm own bytes) (hs : Saved c v comm saved)
    (hsync : ∀ b ∈ own, b ∉ v.unsynced) (hlen : bytes.length ≤ v.lim.fileMax.toNat) :
    wp w commitFile (fun _ v' => Committed c v own bytes v') (Breaks c v saved bytes) v := by
  refine wp_bind (wp_look (wp_then (wp_dirCommit (h.commits hs hsync hlen)) ?_ fun e v' he => he))
  rintro - v' ⟨hcurrent, hentry, ha, hfile⟩
  have hw : v'.file.writing = false := by rw [hfile]; exact h.writing
  have hclean := hcurrent.cleaned hw
  refine wp_setFile ⟨.idle (hclean.idle hw ?_ ?_), hclean.toSaved, by rw [hfile]; rfl,
    ha.trans ⟨rfl, fun _ _ => rfl, rfl, rfl⟩⟩
  · show v'.file.inlined = false
    rw [hfile]
    exact h.blocks
  · show v'.entry = v'.file.entry
    rw [hentry, hfile]

/-- **The commit of an inline file.** -/
theorem InCache.wp_commitFile (h : InCache c v comm bytes) (hw : v.file.writing = false)
    (hs : Saved c v comm saved) (hlen : bytes.length ≤ v.lim.fileMax.toNat) :
    wp w commitFile (fun _ v' => Committed c v [] bytes v') (Breaks c v saved bytes) v := by
  refine wp_bind (wp_look (wp_then (wp_dirCommit (h.commits hw hs hlen)) ?_ fun e v' he => he))
  rintro - v' ⟨hcurrent, -, ha, hfile⟩
  have hw' : v'.file.writing = false := by rw [hfile]; exact hw
  have hclean := hcurrent.cleaned hw'
  refine wp_setFile ⟨.inCache ⟨?_, fun hon => absurd (hw'.symm.trans hon) (by decide), ?_, ?_,
    hclean.shown, hclean.ready⟩, hclean.toSaved, by rw [hfile]; rfl,
    ha.trans ⟨rfl, fun _ _ => rfl, rfl, rfl⟩⟩
  · show v'.file.inlined = true
    rw [hfile]
    exact h.inlined
  · show bytesAt v'.file.cacheMem 0 0 v'.file.fileSize.toNat = bytes
    rw [hfile]
    exact h.bytes_eq
  · show v'.file.fileSize ≤ v'.lim.inlineMax
    rw [hfile, ha.lim]
    exact h.fits

theorem wp_orBroken {α : Type} {m : Code c α} {Q : α → Volume c → Prop} {v₀ : Volume c}
    (h : wp w m Q (Breaks c v₀ prior due) v) : wp w (orErred m) Q (Breaks c v₀ prior due) v :=
  wp_marked (fun _ _ f he => he.withFile f) h

/-- **The commit** of a file that was flushed: it is the saved version then. -/
theorem wp_commitStands (h : Stands c v comm own bytes) (hw : v.file.writing = false)
    (hs : Saved c v comm saved) (hlen : bytes.length ≤ v.lim.fileMax.toNat) :
    wp w (do syncData; orErred commitFile) (fun _ v' => Committed c v own bytes v')
      (Breaks c v saved bytes) v := by
  refine wp_bind ?_
  unfold syncData
  refine wp_bind (wp_look ?_)
  cases h with
  | branched h => exact absurd (hw.symm.trans h.writing) (by decide)
  | idle h =>
    rw [h.blocks, if_pos (by decide)]
    have hi : ∀ S, Intact S v (v.waited 1).synced := fun S =>
      ⟨fun _ _ => rfl, fun _ _ hin => hin, fun _ _ hin => (nomatch hin), rfl, rfl, rfl, rfl, rfl⟩
    have ha := (hi (v.using comm [] [])).around
    have h₁ : Idle c (v.waited 1).synced comm own bytes :=
      ⟨h.writing, h.flushed, h.blocks, h.size, h.chain, h.holds, h.shown.intact (hi _) rfl, h.ready⟩
    refine wp_bdSync (wp_orBroken ?_) fun e he => (fails_waited he).breaks hs
    refine wp_mono (h₁.wp_commitFile (hs.intact (hi _)) (fun b _ hb => (nomatch hb)) hlen) ?_
      fun e v' he => he.after ha
    rintro - v' ⟨hstands, hsaved, hfile, ha'⟩
    exact ⟨hstands, hsaved, hfile, ha.trans ha'⟩
  | inCache h =>
    rw [h.inlined, if_neg (by decide)]
    exact wp_pure (wp_orBroken (h.wp_commitFile hw hs hlen))

/-- **`lfs_file_sync_`.** -/
theorem wp_fileSync (h : Opened c v comm own s) :
    wp v.env.Bad fileSync
      (fun _ v' => (∃ comm' own', Opened c v' comm' own' { s with saved := s.bytes }) ∧ Around v v')
      (Breaks c v s.saved s.bytes) v := by
  unfold fileSync
  refine wp_bind (wp_look ?_)
  rw [if_neg (by rw [h.erred]; decide)]
  refine wp_then (wp_orErred (wp_flushOpened h)) ?_ fun e v' he => he.breaks h.saved
  rintro - v₁ ⟨⟨⟨own₁, h₁⟩, hi⟩, hw, hr, -⟩
  refine wp_bind (wp_look ?_)
  by_cases hd : v₁.file.dirty = true
  swap
  · rw [if_neg hd]
    have hsame : { s with saved := s.bytes } = s :=
      congrArg (fun l => { s with saved := l }) (h₁.clean (Bool.eq_false_iff.2 hd) hw)
    rw [hsame]
    exact wp_pure ⟨⟨comm, own₁, h₁⟩, hi.around⟩
  rw [if_pos hd]
  have hcommit := wp_commitStands (w := v.env.Bad) h₁.stands hw h₁.saved h₁.length_le
  refine wp_mono hcommit ?_ fun e v' he => he.after hi.around
  rintro - v' ⟨hstands, hsaved, hfile, ha⟩
  have hnot : v'.file.writing = false := by rw [hfile]; exact hw
  refine ⟨⟨own₁, own₁, hstands, fun _ => ?_, fun hon => absurd (hnot.symm.trans hon) (by decide),
    ?_, ?_, ?_, ?_, ?_, fun _ hon => absurd (hnot.symm.trans hon) (by decide), hsaved,
    fun _ _ => rfl⟩, hi.around.trans ha⟩
  · have hplaced := h₁.placed hw
    rw [hfile]
    exact ⟨hplaced.place, hplaced.block⟩
  · rw [hfile]
    exact h₁.pos
  · rw [ha.lim]
    exact h₁.pos_le
  · rw [ha.lim]
    exact h₁.length_le
  · rw [hfile]
    exact h₁.erred
  · rw [hfile]
    exact h₁.append

end Boatdash.Lfs
