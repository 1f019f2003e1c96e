import Boatdash.Proof.Lfs.Write

/-!
# Reading a file

`wp_flushedRead`: `lfs_file_flushedread` returns the bytes from the position on, as many as are
asked for or as there are, from the blocks of the file or from its cache (`Readable`). Between two
reads the handle may be in the middle of a block: `Placed` says where it is then.
-/

namespace Boatdash.Lfs

open Prog

variable {c : Config} {v v' : Volume c} {mem : UInt32 → ℕ → UInt8} {blk : List UInt32}
  {bytes : List UInt8} {f f' : File} {h : Handle} {w : Prop}

/-! ## Handles -/

/-- The volume with another file for the handle. -/
def Volume.withHandle (v : Volume c) : Handle → File → Volume c
  | .file, f => v.withFile f
  | .orig, f => { v with orig := f }

@[simp] theorem handle_withHandle (v : Volume c) (h : Handle) (f : File) :
    (v.withHandle h f).handle h = f := by
  cases h <;> rfl

@[simp] theorem mem_withHandle (v : Volume c) (h : Handle) (f : File) :
    (v.withHandle h f).mem = v.mem := by
  cases h <;> rfl

theorem withHandle_same (v : Volume c) (h : Handle) : v.withHandle h (v.handle h) = v := by
  cases h <;> rfl

theorem withHandle_waited (v : Volume c) (h : Handle) (f : File) (n : ℕ) :
    (v.withHandle h f).waited n = (v.waited n).withHandle h f := by
  cases h <;> rfl

theorem withHandle_withHandle (v : Volume c) (h : Handle) (f f' : File) :
    (v.withHandle h f).withHandle h f' = v.withHandle h f' := by
  cases h <;> rfl

theorem wp_setHandle {g : File → File} {Q : Unit → Volume c → Prop} {E : Stop → Volume c → Prop}
    (hQ : Q () (v.withHandle h (g (v.handle h)))) : wp w (setHandle g h) Q E v := by
  cases h <;> exact wp_update hQ

/-- The file as it is but for the place where it is read. -/
structure File.Stays (f f' : File) : Prop where
  head : f'.head = f.head
  size : f'.size = f.size
  writing : f'.writing = f.writing
  dirty : f'.dirty = f.dirty
  erred : f'.erred = f.erred
  inlined : f'.inlined = f.inlined
  append : f'.append = f.append
  cache : f'.cache = f.cache

theorem File.Stays.refl (f : File) : f.Stays f := ⟨rfl, rfl, rfl, rfl, rfl, rfl, rfl, rfl⟩

theorem File.Stays.trans {f'' : File} (h : f.Stays f') (h' : f'.Stays f'') : f.Stays f'' :=
  ⟨h'.head.trans h.head, h'.size.trans h.size, h'.writing.trans h.writing, h'.dirty.trans h.dirty,
    h'.erred.trans h.erred, h'.inlined.trans h.inlined, h'.append.trans h.append,
    h'.cache.trans h.cache⟩

/-! ## What is read -/

/-- A handle in the middle of a block is at the byte of its position. -/
structure Placed (c : Config) (f : File) (blk : List UInt32) : Prop where
  place : f.reading = true → f.off ≠ c.blockSize → f.pos < f.size →
    f.off.toNat = c.placeOf f.pos.toNat
  block : f.reading = true → f.off ≠ c.blockSize → f.inlined = false →
    c.indexOf f.pos.toNat < blk.length → blk[c.indexOf f.pos.toNat]? = some f.block

/-- The file of the handle has the bytes `bytes`, in its cache or in the blocks `blk`. -/
structure Readable (c : Config) (mem : UInt32 → ℕ → UInt8) (f : File) (blk : List UInt32)
    (bytes : List UInt8) : Prop where
  size : f.size.toNat = bytes.length
  cached : f.inlined = true → bytes.length < c.bsize ∧ ∀ p a, bytes[p]? = some a → f.cache p = a
  chain : f.inlined = false → Chain c mem blk f.head f.size
  holds : f.inlined = false → Holds c mem blk bytes
  placed : Placed c f blk

/-- The bytes that are in one block, from `p` on. -/
theorem bytesAt_block {p n : ℕ} (get : ℕ → UInt8) (hp : p + n ≤ bytes.length)
    (hget : ∀ k a, k < n → bytes[p + k]? = some a → get (c.placeOf p + k) = a) :
    bytesAt (fun _ => get) 0 (c.placeOf p) n = (bytes.drop p).take n := by
  apply List.ext_getElem?
  intro i
  rw [List.getElem?_take, List.getElem?_drop]
  by_cases hi : i < n
  · have hin : p + i < bytes.length := by omega
    rw [if_pos hi, getElem?_bytesAt hi, hget i _ hi (List.getElem?_eq_getElem hin),
      List.getElem?_eq_getElem hin]
  · rw [if_neg hi]
    exact List.getElem?_eq_none (by rw [length_bytesAt]; omega)

/-! ## One round -/

/-- The handle after a read of `n` bytes. -/
structure File.Reads (f f' : File) (n : ℕ) : Prop extends f.Stays f' where
  pos : f'.pos.toNat = f.pos.toNat + n

/-- Blocks that have the same bytes. -/
theorem Readable.congr {mem' : UInt32 → ℕ → UInt8} (hr : Readable c mem f blk bytes)
    (hmem : ∀ b ∈ blk, mem' b = mem b) : Readable c mem' f blk bytes :=
  ⟨hr.size, hr.cached, fun hin => (hr.chain hin).congr hmem, fun hin => (hr.holds hin).congr hmem,
    hr.placed⟩

/-- The handle is at the byte of its position. -/
structure AtByte (c : Config) (f : File) (blk : List UInt32) : Prop where
  place : f.off.toNat = c.placeOf f.pos.toNat
  block : f.inlined = false → blk[c.indexOf f.pos.toNat]? = some f.block

/-- How a read ends that fails: only the place where the handle reads is another one. -/
def Unread (h : Handle) (v : Volume c) (e : Stop) (v' : Volume c) : Prop :=
  v'.Errs e ∧ ∃ n f, v' = (v.waited n).withHandle h f

theorem unread_waited {e : Stop} {n : ℕ} (he : (v.waited n).Errs e) : Unread h v e (v.waited n) :=
  ⟨he, n, v.handle h, (withHandle_same (v.waited n) h).symm⟩

theorem Unread.after {v₁ : Volume c} {n : ℕ} {e : Stop} (hu : Unread h v₁ e v')
    (hv₁ : v₁ = (v.waited n).withHandle h f) : Unread h v e v' := by
  obtain ⟨he, m, f', rfl⟩ := hu
  subst hv₁
  refine ⟨he, n + m, f', ?_⟩
  rw [withHandle_waited, withHandle_withHandle, waited_waited]

/-- **The block to read from.** -/
theorem wp_readBlock (hr : Readable c v.mem (v.handle h) blk bytes)
    (hpos : (v.handle h).pos < (v.handle h).size) :
    wp w (readBlock h)
      (fun _ v' => ∃ n f', v' = (v.waited n).withHandle h f' ∧ (v.handle h).Reads f' 0 ∧
        f'.reading = true ∧ AtByte c f' blk)
      (Unread h v) v := by
  have hlt := UInt32.lt_iff_toNat_lt.1 hpos
  unfold readBlock
  refine wp_bind (wp_look ?_)
  simp only
  by_cases hnew : (!(v.handle h).reading || (v.handle h).off == c.blockSize) = true
  · rw [if_pos hnew]
    cases hin : (v.handle h).inlined with
    | true =>
      have hbsize := (hr.cached hin).1
      have hsize := hr.size
      rw [if_pos rfl]
      refine wp_setHandle ⟨0, _, rfl, ⟨⟨rfl, rfl, rfl, rfl, rfl, rfl, rfl, rfl⟩, rfl⟩, rfl, ?_,
        fun hon => ?_⟩
      · exact (first_block c (show (v.handle h).pos.toNat < c.bsize by omega)).2.symm
      · rw [hin] at hon
        cases hon
    | false =>
      rw [if_neg (by decide)]
      refine wp_then (wp_ctzFind (hr.chain hin) hpos) ?_ ?_
      rotate_left
      · rintro e v' ⟨he, n, rfl⟩
        exact unread_waited (he.errs rfl)
      rintro ⟨b, off⟩ v₁ ⟨hb, hoff, n, -, rfl⟩
      refine wp_setHandle ⟨n, _, rfl, ?_, rfl, ?_, fun _ => ?_⟩
      · cases h <;> exact ⟨⟨rfl, rfl, rfl, rfl, rfl, rfl, rfl, rfl⟩, rfl⟩
      · cases h <;> exact hoff
      · cases h <;> exact hb
  · rw [if_neg hnew]
    rw [Bool.or_eq_true, not_or] at hnew
    have hreading : (v.handle h).reading = true := by simpa using hnew.1
    have hoff : (v.handle h).off ≠ c.blockSize := by simpa using hnew.2
    refine wp_pure ⟨0, v.handle h, (withHandle_same v h).symm, ⟨File.Stays.refl _, rfl⟩, hreading,
      hr.placed.place hreading hoff hpos, fun hin => hr.placed.block hreading hoff hin ?_⟩
    rw [(hr.chain hin).length]
    exact indexOf_lt_blocksOf c hlt (v.handle h).size.toNat_lt

/-- A handle that is read by stays readable. -/
theorem Readable.stays (hr : Readable c mem f blk bytes) (hs : f.Stays f')
    (hplaced : Placed c f' blk) : Readable c mem f' blk bytes := by
  refine ⟨by rw [hs.size]; exact hr.size, ?_, ?_, ?_, hplaced⟩
  · rw [hs.inlined, hs.cache]
    exact hr.cached
  · rw [hs.inlined, hs.head, hs.size]
    exact hr.chain
  · rw [hs.inlined]
    exact hr.holds

theorem wp_readData (hr : Readable c v.mem f blk bytes) (ha : AtByte c f blk) {n : ℕ}
    (hn : f.pos.toNat + n ≤ bytes.length) (hfit : f.off.toNat + n ≤ c.bsize) :
    wp w (readData f n)
      (fun data v' => data = (bytes.drop f.pos.toNat).take n ∧ ∃ k, v' = v.waited k)
      (fun e v' => v'.Errs e ∧ ∃ k, v' = v.waited k) v := by
  have hlen : bytes.length < 2 ^ 32 := by rw [← hr.size]; exact f.size.toNat_lt
  unfold readData
  cases hin : f.inlined with
  | true =>
    obtain ⟨hsmall, hcache⟩ := hr.cached hin
    have hplace := (first_block c (show f.pos.toNat < c.bsize by omega)).2
    rw [if_pos rfl]
    refine wp_pure ⟨?_, 0, waited_zero v⟩
    rw [ha.place]
    refine bytesAt_block f.cache hn fun k a _ hk => ?_
    rw [hplace]
    exact hcache _ a hk
  | false =>
    have hblock := ha.block hin
    rw [if_neg (by decide)]
    refine wp_bdRead hfit ((hr.chain hin).device _ (List.mem_of_getElem? hblock)) ⟨?_, 1, rfl⟩
      fun e he => ⟨he.errs rfl, 1, rfl⟩
    rw [ha.place]
    refine bytesAt_block (v.mem f.block) hn fun k a hk hget => ?_
    obtain ⟨b, hb, hbyte⟩ := hr.holds hin _ a hget
    have hplace := ha.place
    obtain ⟨hidx, hplace'⟩ := same_block c (p := f.pos.toNat) (k := k) (by omega) (by omega)
    rw [hidx, hblock] at hb
    rw [hplace'] at hbyte
    rw [Option.some.inj hb]
    exact hbyte

/-- The handle goes on in its block, up to the end of it. -/
theorem AtByte.placed {n : UInt32} (ha : AtByte c f blk) (hn : f.pos.toNat + n.toNat < 2 ^ 32)
    (hfit : f.off.toNat + n.toNat ≤ c.bsize) :
    Placed c { f with pos := f.pos + n, off := f.off + n } blk := by
  have hbsize := c.bsize_lt
  have hplace := ha.place
  have hoff : (f.off + n).toNat = f.off.toNat + n.toNat := toNat_add_of_lt (by omega)
  have hpos : (f.pos + n).toNat = f.pos.toNat + n.toNat := toNat_add_of_lt hn
  have hsame : f.off + n ≠ c.blockSize → c.indexOf (f.pos + n).toNat = c.indexOf f.pos.toNat ∧
      c.placeOf (f.pos + n).toNat = c.placeOf f.pos.toNat + n.toNat := by
    intro hne
    have hne' : (f.off + n).toNat ≠ c.bsize := fun h0 => hne (UInt32.toNat_inj.1 h0)
    rw [hpos]
    exact same_block c hn (by omega)
  refine ⟨fun _ hne _ => ?_, fun _ hne hin _ => ?_⟩
  · show (f.off + n).toNat = _
    rw [(hsame hne).2, hoff, hplace]
  · show blk[c.indexOf (f.pos + n).toNat]? = _
    rw [(hsame hne).1]
    exact ha.block hin

/-- `n` bytes were asked for, and `data` is what was read. -/
def Got (c : Config) (v : Volume c) (h : Handle) (blk : List UInt32) (bytes : List UInt8) (n : ℕ)
    (data : List UInt8) (v' : Volume c) : Prop :=
  data = (bytes.drop (v.handle h).pos.toNat).take n ∧
    ∃ k f', v' = (v.waited k).withHandle h f' ∧ (v.handle h).Reads f' data.length ∧
      Readable c v.mem f' blk bytes

theorem got_nil (hr : Readable c v.mem (v.handle h) blk bytes) : Got c v h blk bytes 0 [] v :=
  ⟨rfl, 0, v.handle h, (withHandle_same v h).symm, ⟨File.Stays.refl _, rfl⟩, hr⟩

/-- Two reads, one after the other. -/
theorem Got.append {data rest : List UInt8} {n n' : ℕ} {v'' : Volume c}
    (hg : Got c v h blk bytes n data v') (hlen : data.length = n)
    (hg' : Got c v' h blk bytes n' rest v'') : Got c v h blk bytes (n + n') (data ++ rest) v'' := by
  obtain ⟨hdata, k, f, rfl, hs, -⟩ := hg
  obtain ⟨hrest, k', f', rfl, hs', hr'⟩ := hg'
  rw [handle_withHandle] at hrest hs'
  rw [mem_withHandle] at hr'
  have hpos := hs.pos
  have hpos' := hs'.pos
  refine ⟨?_, k + k', f', ?_, ⟨hs.toStays.trans hs'.toStays, ?_⟩, hr'⟩
  · rw [List.take_add, List.drop_drop, hrest, hpos, hlen, ← hdata]
  · rw [withHandle_waited, withHandle_withHandle, waited_waited]
  · rw [List.length_append]
    omega

/-- **One round** reads as much as there is in the block. -/
theorem wp_readChunk {nsize : UInt32} (hr : Readable c v.mem (v.handle h) blk bytes)
    (hpos : 0 < nsize.toNat) (hn : (v.handle h).pos.toNat + nsize.toNat ≤ bytes.length) :
    wp w (readChunk h nsize)
      (fun data v' => 0 < data.length ∧ data.length ≤ nsize.toNat ∧
        Got c v h blk bytes data.length data v')
      (Unread h v) v := by
  have hlen : bytes.length < 2 ^ 32 := by rw [← hr.size]; exact (v.handle h).size.toNat_lt
  have hsize := hr.size
  unfold readChunk
  refine wp_then (wp_readBlock hr (UInt32.lt_iff_toNat_lt.2 (by omega))) ?_ fun e v' he => he
  rintro - v₁ ⟨m, f, hv₁, hs, hreading, hat⟩
  have hf : v₁.handle h = f := by rw [hv₁, handle_withHandle]
  have hmem : v₁.mem = v.mem := by rw [hv₁, mem_withHandle]; rfl
  have hr₁ : Readable c v.mem f blk bytes :=
    hr.stays hs.toStays ⟨fun _ _ _ => hat.place, fun _ _ hin _ => hat.block hin⟩
  have hpos₁ := hs.pos
  have hplace := hat.place
  have hin := placeOf_lt c f.pos.toNat_lt
  refine wp_bind (wp_look ?_)
  simp only
  rw [hf]
  have hsub : (c.blockSize - f.off).toNat = c.bsize - f.off.toNat :=
    UInt32.toNat_sub_of_le _ _ (UInt32.le_iff_toNat_le.2 (by show _ ≤ c.bsize; omega))
  set diff := min nsize (c.blockSize - f.off) with hdiff
  have hd : diff.toNat = min nsize.toNat (c.bsize - f.off.toNat) := by
    rw [hdiff, UInt32.toNat_min, hsub]
  have hread : wp w (readData f diff.toNat) _ _ v₁ :=
    wp_readData (by rw [hmem]; exact hr₁) hat (by omega) (by omega)
  refine wp_then hread ?_ ?_
  rotate_left
  · rintro e v' ⟨he, k, rfl⟩
    exact (unread_waited he).after hv₁
  rintro data v₂ ⟨hdata, k, rfl⟩
  have hcount : data.length = diff.toNat := by
    rw [hdata, List.length_take, List.length_drop]
    omega
  have hf₂ : (v₁.waited k).handle h = f := by rw [hv₁, withHandle_waited, handle_withHandle]
  have hstays : f.Stays { f with pos := f.pos + diff, off := f.off + diff } :=
    ⟨rfl, rfl, rfl, rfl, rfl, rfl, rfl, rfl⟩
  refine wp_bind (wp_setHandle (wp_pure ⟨by omega, by omega, ?_, m + k, _, ?_,
    ⟨hs.toStays.trans hstays, ?_⟩, hr₁.stays hstays (hat.placed (by omega) (by omega))⟩))
  · rw [hcount, show (v.handle h).pos.toNat = f.pos.toNat by omega]
    exact hdata
  · rw [hf₂, hv₁, withHandle_waited, withHandle_withHandle, waited_waited]
  · show (f.pos + diff).toNat = _
    rw [toNat_add_of_lt (by omega), hcount]
    omega

/-! ## All of it -/

/-- **The loop.** -/
theorem wp_flushedReadLoop (k : ℕ) (nsize : UInt32) (v : Volume c)
    (hr : Readable c v.mem (v.handle h) blk bytes) (hk : nsize.toNat ≤ k)
    (hn : (v.handle h).pos.toNat + nsize.toNat ≤ bytes.length) :
    wp w (flushedReadLoop h k nsize) (fun data v' => Got c v h blk bytes nsize.toNat data v')
      (Unread h v) v := by
  induction k generalizing nsize v with
  | zero =>
    obtain rfl : nsize = 0 := UInt32.toNat_inj.1 (Nat.le_zero.1 hk)
    exact wp_pure (got_nil hr)
  | succ k ih =>
    unfold flushedReadLoop
    by_cases hzero : nsize = 0
    · subst hzero
      exact wp_pure (got_nil hr)
    · rw [if_neg hzero]
      have hpos : 0 < nsize.toNat := Nat.pos_of_ne_zero fun h0 => hzero (UInt32.toNat_inj.1 h0)
      refine wp_then (wp_readChunk hr hpos hn) ?_ fun e v' he => he
      rintro data v₁ ⟨hsome, hle, hgot⟩
      have hcount : (UInt32.ofNat data.length).toNat = data.length :=
        UInt32.toNat_ofNat_of_lt' (by unfold UInt32.size; have := nsize.toNat_lt; omega)
      have hrest : (nsize - .ofNat data.length).toNat = nsize.toNat - data.length := by
        rw [UInt32.toNat_sub_of_le _ _ (UInt32.le_iff_toNat_le.2 (by rw [hcount]; exact hle)), hcount]
      obtain ⟨-, m, f, hv₁, hs, hr₁⟩ := id hgot
      have hf : v₁.handle h = f := by rw [hv₁, handle_withHandle]
      have hmem : v₁.mem = v.mem := by rw [hv₁, mem_withHandle]; rfl
      have hpos₁ := hs.pos
      have hloop := ih (nsize - .ofNat data.length) v₁ (by rw [hf, hmem]; exact hr₁) (by omega)
        (by rw [hf]; omega)
      refine wp_then hloop ?_ fun e v' he => he.after hv₁
      rintro rest v' hgot'
      have hall := hgot.append rfl hgot'
      rw [hrest, Nat.add_sub_cancel' hle] at hall
      exact wp_pure hall

/-- **`lfs_file_flushedread`.** -/
theorem wp_flushedRead {size : UInt32} (hr : Readable c v.mem (v.handle h) blk bytes) :
    wp w (flushedRead h size) (fun data v' => Got c v h blk bytes size.toNat data v')
      (Unread h v) v := by
  have hsize := hr.size
  unfold flushedRead
  refine wp_bind (wp_look ?_)
  simp only
  by_cases hend : (v.handle h).size ≤ (v.handle h).pos
  · have hle := UInt32.le_iff_toNat_le.1 hend
    rw [if_pos hend]
    refine wp_pure ⟨?_, 0, v.handle h, (withHandle_same v h).symm, ⟨File.Stays.refl _, rfl⟩, hr⟩
    rw [List.drop_eq_nil_of_le (by omega), List.take_nil]
  · have hlt := UInt32.lt_iff_toNat_lt.1 (UInt32.not_le.1 hend)
    rw [if_neg hend]
    have hmin : (min size ((v.handle h).size - (v.handle h).pos)).toNat =
        min size.toNat (bytes.length - (v.handle h).pos.toNat) := by
      rw [UInt32.toNat_min, UInt32.toNat_sub_of_le _ _ (UInt32.le_iff_toNat_le.2 hlt.le), hsize]
    refine wp_mono (wp_flushedReadLoop _ _ v hr (Nat.le_refl _) (by omega)) ?_ fun e v' he => he
    rintro data v' ⟨hdata, hgot⟩
    refine ⟨?_, hgot⟩
    rw [hdata, hmin, ← List.length_drop, ← List.take_eq_take_min]

end Boatdash.Lfs
