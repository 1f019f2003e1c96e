import Boatdash.Proof.Lfs.Lookup
import Boatdash.Proof.Lfs.Change
import Boatdash.Proof.Lfs.Commit

/-!
# Calls on an open file, one after another

`wp_call`: every call does to the volume what `Contents.step` says it does to the contents of the
file, and replies what `Contents.out` says. Closing and opening the file and a power loss are calls
as well: of what is not saved nothing is promised, and what is saved is there again.

* `calls_refine`: **a program cannot tell the file from its contents**, over any run of calls, bad
  blocks and power losses. If a call fails, it is with an error of the device that is no bad block, or
  because every block is in use.
-/

namespace Boatdash.Lfs

open Prog Overwrite

variable {c : Config} {v v' : Volume c} {comm comm' own : List UInt32} {saved : List UInt8}
  {s : Contents} {w : Prop}

/-! ## Opening -/

/-- The file is closed, and `saved` is in it. -/
structure Mounted (c : Config) (v : Volume c) (comm : List UInt32) (saved : List UInt8) : Prop
    extends Saved c v comm saved where
  writing : v.file.writing = false
  dirty : v.file.dirty = false
  ready : Ready c v.la (v.using comm [] []) ∅

/-- A small file is loaded into the cache. -/
theorem Mounted.inCache {f : File} (h : Mounted c v comm saved) (data : List UInt8)
    (hdata : data.length ≤ v.lim.inlineMax.toNat) (append trunc : Bool)
    (hf : f = { (Entry.inlineStruct data).load with
      block := v.file.block, dirty := trunc, append := append }) :
    InCache c (v.withFile f) comm data := by
  have hmax := inlineMax_lt v.lim
  have hbsize := c.blockSize.toNat_lt
  have hsize : f.fileSize.toNat = data.length := by
    rw [hf]
    show (UInt32.ofNat data.length).toNat = _
    refine UInt32.toNat_ofNat_of_lt' ?_
    unfold UInt32.size
    have hbs : c.bsize = c.blockSize.toNat := rfl
    omega
  have hin : f.inlined = true := by
    rw [hf]
    rfl
  have hw : f.writing = false := by
    rw [hf]
    rfl
  refine ⟨hin, fun hon => absurd (hw.symm.trans hon) (by decide), ?_, ?_,
    ⟨h.version.entry_chain, h.version.inline_nil,
      fun _ hno => absurd (hin.symm.trans hno) (by decide), fun _ b hb => (nomatch hb),
      fun hon => absurd (hw.symm.trans hon) (by decide), fun _ => rfl,
      fun b hb => hb.elim (fun hb => (nomatch hb)) fun hb => (nomatch hb)⟩, h.ready⟩
  · show bytesAt f.cacheMem 0 0 f.fileSize.toNat = data
    rw [hsize]
    apply List.ext_getElem?
    intro i
    by_cases hi : i < data.length
    · rw [getElem?_bytesAt hi, Nat.zero_add, List.getElem?_eq_getElem hi, hf]
      show some ((data[i]?).getD 0) = _
      rw [List.getElem?_eq_getElem hi]
      rfl
    · rw [List.getElem?_eq_none (by rw [length_bytesAt]; omega), List.getElem?_eq_none (by omega)]
  · rw [UInt32.le_iff_toNat_le]
    show f.fileSize.toNat ≤ _
    rw [hsize]
    exact hdata

/-- A traversal finds the committed version of a file that is not dirty. -/
theorem Saved.shown (h : Saved c v comm saved) {f : File} (hw : f.writing = false)
    (hd : f.dirty = false) : Shown (v.withFile f) comm comm [] :=
  ⟨h.version.entry_chain, h.version.inline_nil, fun hon => absurd (hd.symm.trans hon) (by decide),
    fun _ b hb => hb, fun hon => absurd (hw.symm.trans hon) (by decide), fun _ => rfl,
    fun b hb => hb.elim (fun hb => h.outside b (.inr hb)) fun hb => (nomatch hb)⟩

/-- A larger one stays in its blocks. -/
theorem Mounted.idle {head size : UInt32} {f : File} (h : Mounted c v comm saved)
    (hsize : size.toNat = saved.length) (hchain : Chain c v.mem comm head size)
    (hholds : Holds c v.mem comm saved) (append : Bool)
    (hf : f = { (Entry.ctzStruct head size).load with
      block := v.file.block, dirty := false, append := append }) :
    Idle c (v.withFile f) comm comm saved := by
  have hw : f.writing = false := by
    rw [hf]
    rfl
  have hd : f.dirty = false := by
    rw [hf]
  have hin : f.inlined = false := by
    rw [hf]
    rfl
  have hchain' : Chain c v.mem comm f.head f.size := by
    rw [hf]
    exact hchain
  have hsize' : f.size.toNat = saved.length := by
    rw [hf]
    exact hsize
  exact ⟨hw, fun b hb => h.flushed b (.inr hb), hin, hsize', hchain', hholds,
    h.shown hw hd, h.ready.settle (fun _ => .inl) fun _ => .inl⟩

/-- The file that was loaded, at its beginning. -/
theorem Mounted.opened {e : Entry} {f : File} {bytes : List UInt8} (h : Mounted c v comm saved)
    (append trunc : Bool)
    (hf : f = { e.load with block := v.file.block, dirty := trunc, append := append })
    (hstands : Stands c (v.withFile f) comm own bytes) (hlen : bytes.length ≤ saved.length)
    (hclean : trunc = false → bytes = saved) :
    Leads c v comm { bytes := bytes, saved := saved, append := append } (v.withFile f) := by
  have hi := (apart_withFile v f ↑(v.using comm [] [])).toIntact
  have hflags : f.writing = false ∧ f.reading = false ∧ f.erred = false ∧ f.pos = 0 := by
    rw [hf]
    cases e <;> exact ⟨rfl, rfl, rfl, rfl⟩
  obtain ⟨hw, hr, herred, hpos⟩ := hflags
  have hle := h.length_le
  refine ⟨⟨own, hstands, fun _ => placed_of_not hr, fun hon => absurd (hw.symm.trans hon) (by decide),
    ?_, Nat.zero_le _, hlen.trans h.length_le, herred, ?_,
    fun _ hon => absurd (hw.symm.trans hon) (by decide), h.toSaved.intact hi, fun hd _ => ?_⟩, hi⟩
  · show f.pos.toNat = 0
    rw [hpos]
    rfl
  · show f.append = append
    rw [hf]
  · have hdirty : f.dirty = trunc := by rw [hf]
    exact hclean (hdirty.symm.trans hd)

/-- **`lfs_fs_forceconsistency`**: the file stays as it is. -/
theorem wp_fsForceconsistency (h : Mounted c v comm saved) :
    wp w fsForceconsistency (fun _ v' => Mounted c v' comm saved ∧ Around v v')
      (Breaks c v saved saved) v := by
  have hready : Ready c v.la (v.using comm comm []) ∅ :=
    h.ready.settle (fun _ => .inl) fun _ => .inl
  have hcommits : Commits c v comm v.entry saved saved :=
    ⟨h.writing, ⟨comm, saved, ⟨h.toSaved, h.toSaved.shown h.writing h.dirty, hready⟩, .inl rfl⟩,
      h.toSaved⟩
  refine wp_bind (wp_look (wp_mono (wp_dirCommit hcommits) ?_ fun e v' he => he))
  rintro - v' ⟨hcurrent, -, ha, hfile⟩
  exact ⟨⟨hcurrent.toSaved, by rw [hfile]; exact h.writing, by rw [hfile]; exact h.dirty,
    hcurrent.ready.settle (fun _ => .inl) fun _ hx => (nomatch hx)⟩, ha⟩

/-- What a call does to the volume: that of the file which `s'` says, and nothing to others. -/
def Becomes (c : Config) (v : Volume c) (s' : Contents) (v' : Volume c) : Prop :=
  (∃ comm own, Opened c v' comm own s') ∧ Around v v'

theorem Leads.becomes {s' : Contents} (h : Leads c v comm s' v') : Becomes c v s' v' :=
  ⟨⟨comm, h.1⟩, h.2.around⟩

theorem Becomes.after {s' : Contents} {v₁ : Volume c} (h : Becomes c v₁ s' v') (ha : Around v v₁) :
    Becomes c v s' v' := ⟨h.1, ha.trans h.2⟩

/-- The file is loaded, whether inline or in blocks. -/
theorem Mounted.load (h : Mounted c v comm saved) (append trunc : Bool) :
    Leads c v comm (.opened saved append trunc) (v.withFile
      { (if trunc then Entry.inlineStruct [] else v.entry).load with
        block := v.file.block, dirty := trunc, append := append }) := by
  cases trunc with
  | true =>
    have hcache := h.inCache [] (Nat.zero_le _) append true rfl
    exact h.opened append true rfl (.inCache hcache) (Nat.zero_le _) fun hno => nomatch hno
  | false =>
    rw [if_neg (by decide)]
    cases h.version with
    | inlineStruct entry none fits =>
      have hcache := h.inCache saved fits append false rfl
      rw [entry]
      exact h.opened append false rfl (.inCache hcache) le_rfl fun _ => rfl
    | ctzStruct head size entry length chain holds =>
      have hidle := h.idle length chain holds append rfl
      rw [entry]
      exact h.opened append false rfl (.idle hidle) le_rfl fun _ => rfl

/-- **`lfs_file_opencfg_`.** -/
theorem wp_fileOpen (h : Mounted c v comm saved) (append trunc : Bool) :
    wp w (fileOpen append trunc) (fun _ v' => Becomes c v (.opened saved append trunc) v')
      (Breaks c v saved saved) v := by
  unfold fileOpen
  refine wp_then (wp_fsForceconsistency h) ?_ fun e v' he => he
  rintro - v₁ ⟨h₁, ha⟩
  have hi : Intact ↑(v₁.using comm [] []) v₁ (v₁.waited 1) := ((quiet_waited v₁ 1).apart _).toIntact
  have h₂ : Mounted c (v₁.waited 1) comm saved := ⟨h₁.toSaved.intact hi, h₁.writing, h₁.dirty, h₁.ready⟩
  refine wp_bind (wp_dirCall (wp_bind (wp_look (wp_setFile ?_))) fun e he => ?_)
  · exact ((h₂.load append trunc).trans hi).becomes.after ha
  · exact ((fails_waited he).breaks h₁.toSaved).after ha

/-! ## Closing, and a power loss -/

/-- The file is closed, in any state of it. -/
theorem Opened.mounted (h : Opened c v comm own s) (b : UInt32) :
    Mounted c (v.withFile { block := b }) comm s.saved :=
  ⟨h.saved.intact (apart_withFile v _ _).toIntact, rfl, rfl, h.stands.ready⟩

/-- **`lfs_file_close_`.** -/
theorem wp_fileClose (h : Opened c v comm own s) :
    wp v.env.Bad fileClose
      (fun _ v' => (∃ comm', Mounted c v' comm' s.bytes) ∧ Around v v')
      (Breaks c v s.saved s.bytes) v := by
  unfold fileClose
  refine wp_bind (wp_attempt (wp_mono (wp_fileSync h) ?_ ?_))
  · rintro - v' ⟨⟨comm', own', h'⟩, ha⟩
    exact wp_setFile ⟨⟨comm', h'.mounted _⟩, ha.trans ⟨rfl, fun _ _ => rfl, rfl, rfl⟩⟩
  · intro e v' he
    exact wp_bind (wp_setFile (wp_fail (he.withFile _)))

/-- **What is saved survives a power loss.** -/
theorem wp_powerLoss {E : Stop → Volume c → Prop} (h : Saved c v comm saved)
    (junk : UInt32 → ℕ → UInt8) :
    wp w (powerLoss junk) (fun _ v' => Saved c v' comm saved ∧ Around v v') E v := by
  have hmem : ∀ b, b ∈ v.tree ∨ b ∈ comm →
      (if b ∈ v.unflushed ++ v.unsynced then junk b else v.mem b) = v.mem b := by
    intro b hb
    refine if_neg fun hin => ?_
    rcases List.mem_append.1 hin with hin | hin
    · exact h.flushed b hb hin
    · exact h.synced b hb hin
  refine wp_update ⟨⟨h.version.congr (fun b hb => hmem b (.inr hb)) rfl rfl,
    fun _ _ hin => (nomatch hin), fun _ _ hin => (nomatch hin), h.outside, h.length_le⟩,
    ⟨rfl, fun b hb => hmem b (.inl hb), rfl, rfl⟩⟩

/-- **`lfs_mount_`.** -/
theorem wp_mount (h : Saved c v comm saved) (seed : UInt32) :
    wp w (mount seed) (fun _ v' => Mounted c v' comm saved ∧ Around v v')
      (Breaks c v saved saved) v := by
  have hi : Intact ↑(v.using comm [] []) v ((v.withFile {}).waited 1) :=
    (apart_withFile v {} _).toIntact.trans ((quiet_waited _ 1).apart _).toIntact
  refine wp_bind (wp_setFile (wp_bind (wp_dirCall (wp_update ?_) fun e he => ?_)))
  · have hi' : Intact ↑(v.using comm [] []) v (((v.withFile {}).waited 1).withLa
        (.drop c (v.la.map fun la => { la with start := seed % c.blockCount }))) :=
      hi.trans ((quiet_withLa (Quiet.refl _) _).apart _).toIntact
    exact ⟨⟨h.intact hi', rfl, rfl, ready_drop (mod_lt_count seed) _⟩, hi'.around⟩
  · exact Fails.breaks (v := v) ⟨.inl he, hi⟩ h

/-! ## Any call -/

/-- A length of data that `lfs_file_write` can return. -/
def Call.Sized : Call → Prop
  | .write data => data.length ≤ 0x7fffffff
  | _ => True

/-- **Every call** does what it does to the contents of the file. -/
theorem wp_call_code (h : Opened c v comm own s) (call : Call) (hsized : call.Sized) :
    wp v.env.Bad call.code
      (fun reply v' => reply = s.out v.lim.fileMax.toNat call ∧
        Becomes c v (s.step v.lim.fileMax.toNat call) v')
      (Breaks c v s.saved (s.step v.lim.fileMax.toNat call).saved) v := by
  cases call with
  | read n =>
    refine wp_then (wp_fileRead (n := n) h) ?_ fun e v' he => he.breaks h.saved
    rintro data v' ⟨rfl, hleads⟩
    exact wp_pure ⟨rfl, hleads.becomes⟩
  | write data =>
    refine wp_then (wp_fileWrite data h hsized) ?_ fun e v' he => he.breaks h.saved
    rintro res v' ⟨hres, hleads⟩
    exact wp_pure ⟨hres, hleads.becomes⟩
  | seek off whence =>
    refine wp_then (wp_fileSeek h off whence) ?_ fun e v' he => he.breaks h.saved
    rintro res v' ⟨hres, hleads⟩
    exact wp_pure ⟨hres, hleads.becomes⟩
  | tell =>
    refine wp_bind (wp_look (wp_pure ⟨?_, ⟨comm, own, h⟩, Around.refl v⟩))
    rw [h.pos]
    rfl
  | rewind =>
    refine wp_then (wp_fileRewind h) ?_ fun e v' he => he.breaks h.saved
    rintro res v' ⟨rfl, hleads⟩
    exact wp_pure ⟨rfl, hleads.becomes⟩
  | size =>
    refine wp_bind (wp_look (wp_pure ⟨?_, ⟨comm, own, h⟩, Around.refl v⟩))
    rw [h.stands.fileSize]
    rfl
  | truncate n =>
    refine wp_then (wp_fileTruncate (n := n) h) ?_ fun e v' he => he.breaks h.saved
    rintro res v' ⟨hres, hleads⟩
    exact wp_pure ⟨hres, hleads.becomes⟩
  | sync =>
    refine wp_then (wp_fileSync h) ?_ fun e v' he => he
    rintro - v' hpost
    exact wp_pure ⟨rfl, hpost⟩
  | reopen append trunc =>
    refine wp_then (wp_fileClose h) ?_ fun e v' he => he
    rintro - v₁ ⟨⟨comm₁, h₁⟩, ha⟩
    refine wp_then (wp_fileOpen h₁ append trunc) ?_ fun e v' he => (he.after ha).done
    exact fun _ v' hbecomes => wp_pure ⟨rfl, hbecomes.after ha⟩
  | restart junk seed append trunc =>
    refine wp_then (wp_powerLoss h.saved junk) ?_ fun e v' he => he
    rintro - v₁ ⟨h₁, ha₁⟩
    refine wp_then (wp_mount h₁ seed) ?_ fun e v' he => he.after ha₁
    rintro - v₂ ⟨h₂, ha₂⟩
    have ha := ha₁.trans ha₂
    refine wp_then (wp_fileOpen h₂ append trunc) ?_ fun e v' he => he.after ha
    exact fun _ v' hbecomes => wp_pure ⟨rfl, hbecomes.after ha⟩

/-! ## Any run -/

theorem wp_runCalls (calls : List Call) (v : Volume c) (comm own : List UInt32) (s : Contents)
    (h : Opened c v comm own s) (hsized : ∀ call ∈ calls, call.Sized) :
    wp v.env.Bad (runCalls calls)
      (fun replies v' =>
        replies = ((contentsMachine v.lim.fileMax.toNat).log s calls).map Prod.snd ∧
          Becomes c v ((contentsMachine v.lim.fileMax.toNat).run s calls) v')
      (fun e v' => v'.Failed e) v := by
  induction calls generalizing v comm own s with
  | nil => exact wp_pure ⟨rfl, ⟨comm, own, h⟩, Around.refl v⟩
  | cons call calls ih =>
    refine wp_then (wp_call_code h call (hsized call (List.mem_cons_self ..))) ?_ fun e v' he => he.1
    rintro reply v₁ ⟨rfl, ⟨comm₁, own₁, h₁⟩, ha⟩
    have hrest := ih v₁ comm₁ own₁ _ h₁ fun call' hin => hsized call' (List.mem_cons_of_mem _ hin)
    rw [ha.env, ha.lim] at hrest
    refine wp_then hrest ?_ fun e v' he => he
    rintro replies v' ⟨rfl, hopen, ha'⟩
    exact wp_pure ⟨rfl, hopen, ha.trans ha'⟩

/-- **A program cannot tell the file from its contents**, whatever it calls, through bad blocks and
power losses; what it saved is there in the end, and other files are as they were. A call fails only
with the error of the last call of the device, which is no bad block, or with `LFS_ERR_NOSPC` when
no block is left. On a device with a bad block this is so as long as the volume is not lost. -/
theorem calls_refine (h : Mounted c v comm saved) (append trunc : Bool) (calls : List Call)
    (hsized : ∀ call ∈ calls, call.Sized) :
    wp v.env.Bad
      (do
        fileOpen append trunc
        runCalls calls)
      (fun replies v' =>
        replies = ((contentsMachine v.lim.fileMax.toNat).log (.opened saved append trunc) calls).map
          Prod.snd ∧
        (∃ comm', Saved c v' comm'
          ((contentsMachine v.lim.fileMax.toNat).run (.opened saved append trunc) calls).saved) ∧
        Around v v')
      (fun e v' => v'.Failed e) v := by
  refine wp_then (wp_fileOpen h append trunc) ?_ fun e v' he => he.1
  rintro - v₁ ⟨⟨comm₁, own₁, h₁⟩, ha₁⟩
  have hrun := wp_runCalls calls v₁ comm₁ own₁ _ h₁ hsized
  rw [ha₁.env, ha₁.lim] at hrun
  refine wp_mono hrun ?_ fun e v' he => he
  rintro replies v' ⟨hreplies, ⟨comm', own', hopen⟩, ha⟩
  exact ⟨hreplies, ⟨comm', hopen.saved⟩, ha₁.trans ha⟩

/-- A volume of ten blocks with an empty file, on a device that does what `env` says. -/
def tenVolume (env : Env) : Volume tenBlocks where
  mem := fun _ _ => 0
  env := env
  lim := tenLimits
  la := .drop tenBlocks ⟨⟨0, 0, 0, 0, []⟩, ∅⟩
  tree := [2]
  dirs := [0, 1]

theorem tenVolume_mounted (env : Env) : Mounted tenBlocks (tenVolume env) [] [] where
  version := .inlineStruct rfl rfl (Nat.zero_le _)
  flushed := fun _ _ hb => nomatch hb
  synced := fun _ _ hb => nomatch hb
  outside := by
    rintro b (hb | hb)
    · rw [List.mem_singleton.1 hb]
      exact (by decide : (2 : UInt32) ∉ ([0, 1] : List UInt32))
    · cases hb
  length_le := Nat.zero_le _
  writing := rfl
  dirty := rfl
  ready := by
    have hstart : (⟨⟨0, 0, 0, 0, []⟩, ∅⟩ : Lookout).start.toNat < tenBlocks.count := tenBlocks.count_gt
    exact ready_drop hstart _

/-- A device on which nothing fails. The first commit takes a block for its directory, and writes
it. -/
def goodEnv : Env where
  result := fun _ _ => 0
  junk := fun _ _ => 0
  cached := fun _ _ => true
  steps := fun i => if i = 0 then [.take, .write 0 fun _ => 1] else []

/-- What is written behind a gap and saved is there after a power loss, the gap with zeros. -/
theorem calls_refine_gap :
    wp (tenVolume goodEnv).env.Bad
      (do
        fileOpen false false
        runCalls [.seek 2 .seekSet, .write [7, 8], .sync, .write [9], .tell,
          .restart (fun _ _ => 1) 5 true false, .read 9, .write [6], .size])
      (fun replies _ => replies = [.code 2, .code 2, .code 0, .code 1, .code 5,
        .code 0, .data [0, 0, 7, 8], .code 1, .code 5])
      (fun e v' => v'.Failed e) (tenVolume goodEnv) := by
  have hrun := calls_refine (tenVolume_mounted goodEnv) false false
    [.seek 2 .seekSet, .write [7, 8], .sync, .write [9], .tell,
      .restart (fun _ _ => 1) 5 true false, .read 9, .write [6], .size]
    (by simp [Call.Sized])
  have hmax : (tenVolume goodEnv).lim.fileMax.toNat = 0x7fffffff := rfl
  rw [hmax] at hrun
  -- the volume is not to be computed
  generalize tenVolume goodEnv = v at hrun ⊢
  exact wp_mono hrun (fun _ _ hpost => hpost.1.trans (by decide)) fun _ _ he => he

end Boatdash.Lfs
