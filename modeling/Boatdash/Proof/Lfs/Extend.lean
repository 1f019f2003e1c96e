import Boatdash.Proof.Lfs.Free

/-!
# A new block at the end of a file

`wp_ctzExtend`: `lfs_ctz_extend` comes back with a block that was free, in which the file goes on:
its list of blocks is linked again, it holds the same bytes, and nothing else has changed. It goes
from one bad block to the next, and there are not enough of them for it not to end.
-/

namespace Boatdash.Lfs

open Prog Ruler SkipList

variable {c : Config} {v v' v'' : Volume c} {mem mem' : UInt32 → ℕ → UInt8} {blk l : List UInt32}
  {b nb top size : UInt32} {used pend : Finset UInt32} {w : Prop}
  {data : List UInt8} {off n : ℕ}

/-! ## Bytes and blocks -/

/-- The bytes `data` are those of the file in the blocks `blk`. -/
def Holds (c : Config) (mem : UInt32 → ℕ → UInt8) (blk : List UInt32) (data : List UInt8) : Prop :=
  ∀ p a, data[p]? = some a → ∃ b, blk[c.indexOf p]? = some b ∧ mem b (c.placeOf p) = a

theorem indexOf_mono (c : Config) {p q : ℕ} (h : p ≤ q) (hq : q + 1 < 2 ^ 32) :
    c.indexOf p ≤ c.indexOf q := by
  have hmono := blocksOf_mono c (Nat.succ_le_succ h) hq
  exact Nat.le_of_succ_le_succ hmono

/-- Within a block places are in order. -/
theorem placeOf_le (c : Config) {p q : ℕ} (h : p ≤ q) (hq : q < 2 ^ 32)
    (hi : c.indexOf p = c.indexOf q) : c.placeOf p ≤ c.placeOf q := by
  rw [placeOf_eq c (by omega : p < 2 ^ 32), placeOf_eq c hq, hi]
  omega

theorem placeOf_zero (c : Config) : c.placeOf 0 = 0 := by
  unfold Config.placeOf place
  omega

theorem indexOf_zero (c : Config) : c.indexOf 0 = 0 := by
  show index c.bsize 4 0 = 0
  unfold index
  simp

/-- Blocks that have the same bytes. -/
theorem Holds.congr (h : Holds c mem blk data) (hmem : ∀ x ∈ blk, mem' x = mem x) :
    Holds c mem' blk data := by
  intro p a ha
  obtain ⟨x, hx, hbyte⟩ := h p a ha
  refine ⟨x, hx, ?_⟩
  rw [hmem x (List.mem_of_getElem? hx)]
  exact hbyte

/-- More blocks. -/
theorem Holds.append (h : Holds c mem blk data) (l : List UInt32) :
    Holds c mem (blk ++ l) data := by
  intro p a ha
  obtain ⟨x, hx, hbyte⟩ := h p a ha
  have hlt := (List.getElem?_eq_some_iff.1 hx).1
  exact ⟨x, by rw [List.getElem?_append_left hlt]; exact hx, hbyte⟩

/-- Fewer bytes, with the blocks they need. -/
theorem Holds.take (h : Holds c mem blk data) (hdata : data.length < 2 ^ 32) {m : ℕ}
    (hm : m ≤ data.length) : Holds c mem (blk.take (c.blocksOf m)) (data.take m) := by
  intro p a ha
  rw [List.getElem?_take] at ha
  split at ha
  · rename_i hp
    obtain ⟨x, hx, hbyte⟩ := h p a ha
    refine ⟨x, ?_, hbyte⟩
    rw [List.getElem?_take, if_pos (indexOf_lt_blocksOf c hp (by omega))]
    exact hx
  · cases ha

/-- The last block of a list, copied into another as far as it is used. -/
theorem linked_swap (h : Linked (ptrAt mem) (l ++ [b])) (hl : ∀ x ∈ l, mem' x = mem x)
    (hnb : ∀ j < off, mem' nb j = mem b j) (hoff : head 4 l.length ≤ off) :
    Linked (ptrAt mem') (l ++ [nb]) := by
  have hfirst : Linked (ptrAt mem') l := by
    have htake := h.take l.length
    rw [List.take_left' rfl] at htake
    refine htake.congr fun i x k hx _ _ => ?_
    unfold ptrAt wordAt bytesAt
    rw [hl x (List.mem_of_getElem? hx)]
  refine linked_snoc hfirst fun hne k hk => ?_
  have hpos : l.length ≠ 0 := fun h0 => hne (List.eq_nil_of_length_eq_zero h0)
  have hpow : 0 < 2 ^ k := Nat.two_pow_pos k
  have hptr := h l.length b k (by rw [List.getElem?_append_right (Nat.le_refl _)]; simp) hpos hk
  rw [List.getElem?_append_left (by omega)] at hptr
  rw [hptr]
  have hhead : head 4 l.length = 4 * (rank l.length + 1) := if_neg hpos
  have hword : wordAt mem' nb (4 * k) = wordAt mem b (4 * k) := by
    unfold wordAt
    congr 1
    apply List.map_congr_left
    intro i hi
    have hi' := List.mem_range.1 hi
    exact hnb _ (by omega)
  exact congrArg some hword.symm

theorem holds_swap (h : Holds c mem (l ++ [b]) data) (hl : ∀ x ∈ l, mem' x = mem x)
    (hnb : ∀ j < off, mem' nb j = mem b j)
    (hoff : ∀ p < data.length, c.indexOf p = l.length → c.placeOf p < off) :
    Holds c mem' (l ++ [nb]) data := by
  intro p a ha
  obtain ⟨x, hx, hbyte⟩ := h p a ha
  have hp := (List.getElem?_eq_some_iff.1 ha).1
  rcases Nat.lt_or_ge (c.indexOf p) l.length with hlt | hge
  · rw [List.getElem?_append_left hlt] at hx
    refine ⟨x, by rw [List.getElem?_append_left hlt]; exact hx, ?_⟩
    rw [hl x (List.mem_of_getElem? hx)]
    exact hbyte
  · have hlen := (List.getElem?_eq_some_iff.1 hx).1
    rw [List.length_append, List.length_singleton] at hlen
    have hlast : c.indexOf p = l.length := by omega
    rw [hlast, List.getElem?_append_right (Nat.le_refl _), Nat.sub_self] at hx
    have hxb : b = x := by simpa using hx
    refine ⟨nb, by rw [hlast, List.getElem?_append_right (Nat.le_refl _), Nat.sub_self]; rfl, ?_⟩
    rw [hnb _ (hoff p hp hlast), hxb]
    exact hbyte

/-! ## Writing one block -/

/-- Of the volume only the block `b` has changed, and the calls made. -/
structure Only (b : UInt32) (v v' : Volume c) : Prop extends Apart {x | x ≠ b} v v' where
  file : v'.file = v.file
  la : v'.la = v.la

theorem Only.refl (b : UInt32) (v : Volume c) : Only b v v := ⟨Apart.refl _ v, rfl, rfl⟩

theorem Only.trans (h : Only b v v') (h' : Only b v' v'') : Only b v v'' :=
  ⟨h.toApart.trans h'.toApart, h'.file.trans h.file, h'.la.trans h.la⟩

theorem Only.mem_eq (h : Only b v v') {x : UInt32} (hx : x ≠ b) : v'.mem x = v.mem x := h.mem x hx

theorem Quiet.only (h : Quiet v v') (hla : v'.la = v.la) : Only b v v' := ⟨h.apart _, h.file, hla⟩

theorem only_spoil (v : Volume c) (b : UInt32) (off n : ℕ) (junk : ℕ → UInt8) :
    Only b v ((v.waited n).withMem b (spoil v.mem b off junk)) :=
  ⟨((quiet_waited v n).apart _).write (fun h : b ≠ b => h rfl) fun _ hx => spoil_other hx, rfl, rfl⟩

theorem only_setBytes (v : Volume c) (b : UInt32) (off n : ℕ) (data : List UInt8) :
    Only b v ((v.waited n).withMem b (setBytes v.mem b off data)) :=
  ⟨((quiet_waited v n).apart _).write (fun h : b ≠ b => h rfl) fun _ hx => setBytes_other hx, rfl, rfl⟩

/-- `read` gets the bytes of `src` before `n`, whatever is in the block `b`. -/
def Reads (w : Prop) (v : Volume c) (b : UInt32) (n : ℕ) (src : ℕ → UInt8)
    (read : UInt32 → Code c (List UInt8)) : Prop :=
  ∀ i v', i.toNat < n → Only b v v' →
    wp w (read i) (fun l v'' => l = [src i.toNat] ∧ Quiet v' v'' ∧ v''.la = v'.la)
      (fun e v'' => v''.Errs e ∧ Quiet v' v'' ∧ v''.la = v'.la) v'

/-- **The copy.** -/
theorem wp_copyBytes {read : UInt32 → Code c (List UInt8)} {src : ℕ → UInt8} (k : ℕ) (i : UInt32)
    (v' : Volume c) (hread : Reads w v b n src read)
    (hk : i.toNat + k = n) (hn : n < 2 ^ 32) (ho : Only b v v')
    (hdone : ∀ j < i.toNat, v'.mem b j = src j) :
    wp w (copyBytes read b i k)
      (fun good v'' => Only b v v'' ∧ (good = true → ∀ j < n, v''.mem b j = src j))
      (fun e v'' => v''.Errs e ∧ Only b v v'') v' := by
  induction k generalizing i v' with
  | zero =>
    refine wp_pure ⟨ho, fun _ j hj => hdone j (by omega)⟩
  | succ k ih =>
    unfold copyBytes
    refine wp_then (hread i v' (by omega) ho) ?_ ?_
    rotate_left
    · rintro e v₁ ⟨he, hq, hla⟩
      exact ⟨he, ho.trans (hq.only hla)⟩
    rintro _ v₁ ⟨rfl, hq, hla⟩
    have ho₁ := ho.trans (hq.only hla)
    have hdone₁ : ∀ j < i.toNat, v₁.mem b j = src j := by
      rw [hq.mem_eq]
      exact hdone
    refine wp_bind (wp_bdProg ?_ ?_ ?_)
    · have hnext : (i + 1).toNat = i.toNat + 1 := toNat_add_of_lt (by show i.toNat + 1 < _; omega)
      refine ih (i + 1) _ (by omega) (ho₁.trans (only_setBytes v₁ b _ 1 _)) fun j hj => ?_
      show setBytes v₁.mem b i.toNat [src i.toNat] b j = src j
      rcases Nat.lt_or_ge j i.toNat with hlt | hge
      · rw [setBytes_below hlt]
        exact hdone₁ j hlt
      · have hj' : j = i.toNat + 0 := by omega
        rw [hj', setBytes_at (a := src i.toNat) rfl]
        rfl
    · exact fun junk _ => wp_pure ⟨ho₁.trans (only_spoil v₁ b _ 1 junk), fun h => (nomatch h)⟩
    · exact fun e junk he => ⟨he, ho₁.trans (only_spoil v₁ b _ 1 junk)⟩

/-- Bytes that were written are read back. -/
theorem bytesAt_setBytes : bytesAt (setBytes mem b n data) b n data.length = data := by
  apply List.ext_getElem?
  intro i
  unfold bytesAt
  rw [List.getElem?_map]
  rcases Nat.lt_or_ge i data.length with hi | hi
  · rw [List.getElem?_range hi, Option.map_some, setBytes_at (List.getElem?_eq_getElem hi),
      List.getElem?_eq_getElem hi]
  · rw [List.getElem?_eq_none (by simpa using hi), List.getElem?_eq_none hi]
    rfl

theorem wordAt_setBytes (a : UInt32) : wordAt (setBytes mem b n (le32 a)) b n = a := by
  have hdata : bytesAt (setBytes mem b n (le32 a)) b n (le32 a).length = le32 a := bytesAt_setBytes
  unfold wordAt
  rw [show 4 = (le32 a).length from rfl, hdata]
  exact fromLe32_le32 a

/-- **The pointers**, each read from the block the one before it leads to. -/
theorem wp_appendPointers {m : ℕ} (k : ℕ) (i nhead : UInt32) (v' : Volume c)
    (hdev : ∀ j ≤ m, chain (ptrAt v.mem) top j < c.blockCount ∧ chain (ptrAt v.mem) top j ≠ nb)
    (hroom : 4 * (m + 1) ≤ c.bsize) (hk : i.toNat + k = m + 1)
    (hhead : nhead = chain (ptrAt v.mem) top i.toNat) (ho : Only nb v v')
    (hdone : ∀ j < i.toNat, ptrAt v'.mem nb j = chain (ptrAt v.mem) top j) :
    wp w (appendPointers nb i k nhead)
      (fun good v'' => Only nb v v'' ∧
        (good = true → ∀ j ≤ m, ptrAt v''.mem nb j = chain (ptrAt v.mem) top j))
      (fun e v'' => v''.Errs e ∧ Only nb v v'') v' := by
  induction k generalizing i nhead v' with
  | zero => exact wp_pure ⟨ho, fun _ j hj => hdone j (by omega)⟩
  | succ k ih =>
    have hsize := c.bsize_lt
    have hfour : (4 * i).toNat = 4 * i.toNat := toNat_mul_of_lt (by show 4 * i.toNat < _; omega)
    unfold appendPointers
    refine wp_bind (wp_bdProg ?_ ?_ ?_)
    · rw [hfour]
      -- the pointers before it stay
      have hdone' : ∀ j < i.toNat + 1,
          ptrAt (setBytes v'.mem nb (4 * i.toNat) (le32 nhead)) nb j =
            chain (ptrAt v.mem) top j := by
        intro j hj
        unfold ptrAt
        rcases Nat.lt_or_ge j i.toNat with hlt | hge
        · rw [wordAt_congr fun x _ hx => setBytes_below (by omega)]
          exact hdone j hlt
        · have hj' : j = i.toNat := by omega
          rw [hj', wordAt_setBytes]
          exact hhead
      have ho₁ := ho.trans (only_setBytes v' nb (4 * i.toNat) 1 (le32 nhead))
      set v₁ := (v'.waited 1).withMem nb (setBytes v'.mem nb (4 * i.toNat) (le32 nhead))
      rw [if_pos rfl]
      by_cases hlast : k = 0
      · rw [if_pos hlast]
        exact wp_pure ⟨ho₁, fun _ j hj => hdone' j (by omega)⟩
      · rw [if_neg hlast]
        obtain ⟨hin, hne⟩ := hdev i.toNat (by omega)
        rw [← hhead] at hin hne
        refine wp_bind (wp_bdRead32 (by rw [hfour]; show _ ≤ c.bsize; omega) hin ?_ ?_)
        · have hnext : (i + 1).toNat = i.toNat + 1 :=
            toNat_add_of_lt (by show i.toNat + 1 < _; omega)
          have hq := ho₁.trans ((quiet_waited v₁ 1).only rfl)
          refine ih (i + 1) _ _ (by omega) ?_ hq (by rw [hnext]; exact hdone')
          show wordAt v₁.mem nhead (4 * i).toNat = _
          rw [hfour, hnext]
          unfold chain
          rw [← hhead]
          exact wordAt_congr fun x _ _ => congrFun (ho₁.mem_eq hne) x
        · exact fun e he => ⟨he.errs rfl, ho₁.trans ((quiet_waited v₁ 1).only rfl)⟩
    · exact fun junk _ => wp_pure ⟨ho.trans (only_spoil v' nb _ 1 junk), fun h => (nomatch h)⟩
    · exact fun e junk he => ⟨he, ho.trans (only_spoil v' nb _ 1 junk)⟩

/-- A file of no bytes. -/
theorem chain_nil (mem : UInt32 → ℕ → UInt8) (top : UInt32) : Chain c mem [] top 0 :=
  ⟨linked_nil, fun _ h => (nomatch h), rfl, fun h => absurd rfl h⟩

/-- The last block of a file. -/
theorem Chain.split (h : Chain c mem blk top size) (hsize : size ≠ 0) :
    blk.take (c.indexOf (size.toNat - 1)) ++ [top] = blk ∧
      c.indexOf (size.toNat - 1) + 1 = blk.length := by
  have hpos : size.toNat ≠ 0 := fun h0 => hsize (UInt32.toNat_inj.1 h0)
  have hlen := h.length
  obtain ⟨n, hn⟩ := Nat.exists_eq_succ_of_ne_zero hpos
  rw [hn] at hlen ⊢
  have hlen' : blk.length = c.indexOf n + 1 := hlen
  have hlast := h.last hsize
  rw [hlen', Nat.add_sub_cancel] at hlast
  refine ⟨?_, hlen'.symm⟩
  show blk.take (c.indexOf n) ++ [top] = blk
  have htake := List.take_add_one (l := blk) (i := c.indexOf n)
  rw [hlast, ← hlen', List.take_length] at htake
  exact htake.symm

/-- The file of `size` bytes goes on in the block `nb`. -/
structure Grown (c : Config) (mem mem' : UInt32 → ℕ → UInt8) (blk : List UInt32) (nb : UInt32)
    (size : ℕ) : Prop where
  linked : Linked (ptrAt mem') (blk.take (c.indexOf size) ++ [nb])
  holds : ∀ data, data.length = size → Holds c mem blk data →
    Holds c mem' (blk.take (c.indexOf size) ++ [nb]) data

/-- The last block is copied. -/
theorem grown_copy (h : Chain c mem blk top size) (hsize : size ≠ 0)
    (hsame : c.indexOf size.toNat = c.indexOf (size.toNat - 1))
    (hmem : ∀ x ∈ blk, mem' x = mem x)
    (hcopy : ∀ j < c.placeOf (size.toNat - 1) + 1, mem' nb j = mem top j) :
    Grown c mem mem' blk nb size.toNat := by
  have hpos : size.toNat ≠ 0 := fun h0 => hsize (UInt32.toNat_inj.1 h0)
  have hlt := size.toNat_lt
  obtain ⟨hsplit, hlen⟩ := h.split hsize
  have htake : (blk.take (c.indexOf (size.toNat - 1))).length = c.indexOf (size.toNat - 1) := by
    rw [List.length_take]
    omega
  have hmem' : ∀ x ∈ blk.take (c.indexOf (size.toNat - 1)), mem' x = mem x :=
    fun x hx => hmem x (List.mem_of_mem_take hx)
  have hplace := placeOf_eq c (show size.toNat - 1 < 2 ^ 32 by omega)
  have hlinked := h.linked
  rw [← hsplit] at hlinked
  refine ⟨?_, fun data hdata hholds => ?_⟩
  · rw [hsame]
    exact linked_swap hlinked hmem' hcopy (by rw [htake]; omega)
  · rw [← hsplit] at hholds
    rw [hsame]
    refine holds_swap hholds hmem' hcopy fun p hp hi => ?_
    rw [htake] at hi
    have hle := placeOf_le c (show p ≤ size.toNat - 1 by omega) (by omega) hi
    omega

/-- A block is appended. -/
theorem grown_append (h : Chain c mem blk top size) (hsize : size ≠ 0)
    (hnext : c.indexOf size.toNat = blk.length) (hmem : ∀ x ∈ blk, mem' x = mem x)
    (hptr : ∀ j ≤ rank blk.length, ptrAt mem' nb j = chain (ptrAt mem) top j) :
    Grown c mem mem' blk nb size.toNat := by
  obtain ⟨hsplit, hlen⟩ := h.split hsize
  have hfull : blk.take (c.indexOf size.toNat) = blk := by rw [hnext, List.take_length]
  have htop : blk[c.indexOf (size.toNat - 1)]? = some top := by
    rw [← h.last hsize]
    congr 1
    omega
  refine ⟨?_, fun data _ hholds => ?_⟩
  · rw [hfull]
    refine linked_snoc (h.congr hmem).linked fun _ k hk => ?_
    rw [hptr k hk, ← hlen]
    exact chain_eq h.linked htop k (by rw [hlen]; exact hk)
  · rw [hfull]
    exact (hholds.congr hmem).append [nb]

/-- The block `nb` was tried. If it is a good one the file goes on there, at the place `r`. -/
def Tried (c : Config) (v : Volume c) (blk : List UInt32) (nb size : UInt32) (r : Option UInt32)
    (v' : Volume c) : Prop :=
  Only nb v v' ∧ ∀ off, r = some off →
    off.toNat = c.placeOf size.toNat ∧ Grown c v.mem v'.mem blk nb size.toNat

theorem Chain.top_mem (h : Chain c mem blk top size) (hsize : size ≠ 0) : top ∈ blk := by
  rw [← (h.split hsize).1]
  exact List.mem_append_right _ (List.mem_singleton_self top)

/-- **The last block is copied** up to the place `noff`, behind the last byte. -/
theorem wp_copyLast {noff : UInt32} (hch : Chain c v.mem blk top size) (hnb : nb ∉ blk)
    (hsize : size ≠ 0) (hnoff : noff.toNat = c.placeOf (size.toNat - 1) + 1)
    (hsame : c.indexOf size.toNat = c.indexOf (size.toNat - 1))
    (hgo : c.placeOf size.toNat = c.placeOf (size.toNat - 1) + 1) (ho : Only nb v v') :
    wp w (do
        if ← copyBytes (fun i => bdRead top i 1) nb 0 noff.toNat then return some noff
        else return none)
      (Tried c v blk nb size) (fun e v'' => v''.Errs e ∧ Only nb v v'') v' := by
  have hne : ∀ x ∈ blk, x ≠ nb := fun x hx hxb => hnb (hxb ▸ hx)
  have htop := hch.top_mem hsize
  have hlt := size.toNat_lt
  have hbsize := c.bsize_lt
  have hin := placeOf_lt c (show size.toNat - 1 < 2 ^ 32 by omega)
  have hread : Reads w v nb (c.placeOf (size.toNat - 1) + 1) (v.mem top) fun i => bdRead top i 1 := by
    intro i v₁ hi ho₁
    refine wp_bdRead (by show _ ≤ c.bsize; omega) (hch.device _ htop) ?_ ?_
    · refine ⟨?_, quiet_waited v₁ 1, rfl⟩
      show [v₁.mem top i.toNat] = [v.mem top i.toNat]
      rw [ho₁.mem_eq (hne top htop)]
    · exact fun e he => ⟨he.errs rfl, quiet_waited v₁ 1, rfl⟩
  rw [hnoff]
  refine wp_then (wp_copyBytes _ 0 v' hread (Nat.zero_add _) (by omega) ho
    fun j hj => absurd hj (Nat.not_lt_zero j)) ?_ fun e v'' h => h
  rintro (_ | _) v'' ⟨ho', hcopy⟩
  · exact wp_pure ⟨ho', fun off h => (nomatch h)⟩
  · refine wp_pure ⟨ho', ?_⟩
    rintro off ⟨rfl⟩
    exact ⟨by rw [hnoff, hgo], grown_copy hch hsize hsame (fun x hx => ho'.mem_eq (hne x hx))
      (hcopy rfl)⟩

/-- **A block is appended** behind a full one, with the pointers of its `index`. -/
theorem wp_appendBlock {index : UInt32} (hch : Chain c v.mem blk top size) (hnb : nb ∉ blk)
    (hsize : size ≠ 0) (hindex : index.toNat = blk.length)
    (hnext : c.indexOf size.toNat = blk.length)
    (hfirst : c.placeOf size.toNat = head 4 blk.length) (ho : Only nb v v') :
    wp w (do
        if ← appendPointers nb 0 (ctz index + 1).toNat top then return some (4 * (ctz index + 1))
        else return none)
      (Tried c v blk nb size) (fun e v'' => v''.Errs e ∧ Only nb v v'') v' := by
  have hne : ∀ x ∈ blk, x ≠ nb := fun x hx hxb => hnb (hxb ▸ hx)
  have hlt := size.toNat_lt
  obtain ⟨-, hlen⟩ := hch.split hsize
  have hnz : index ≠ 0 := by
    rintro rfl
    exact absurd hindex (by show 0 ≠ _; omega)
  have hptrs := toNat_pointers hnz
  have hskips := toNat_skips hnz
  rw [hindex] at hptrs hskips
  have hlast : blk[c.indexOf (size.toNat - 1)]? = some top := by
    rw [← hch.last hsize]
    congr 1
    omega
  have hchain := chain_eq hch.linked hlast
  rw [hlen] at hchain
  have hdev : ∀ j ≤ rank blk.length, chain (ptrAt v.mem) top j < c.blockCount ∧
      chain (ptrAt v.mem) top j ≠ nb := by
    intro j hj
    have hmem := List.mem_of_getElem? (hchain j hj)
    exact ⟨hch.device _ hmem, hne _ hmem⟩
  have hroom : 4 * (rank blk.length + 1) ≤ c.bsize := by
    have hhead : head 4 blk.length = 4 * (rank blk.length + 1) := if_neg (by omega)
    have hsmall := indexOf_lt c (show size.toNat - 1 < 2 ^ 32 by omega)
    have hle := head_le_bsize c (i := blk.length) (by omega)
    omega
  rw [hskips]
  refine wp_then (wp_appendPointers (m := rank blk.length) _ 0 top v' hdev hroom
    (Nat.zero_add _) rfl ho fun j hj => absurd hj (Nat.not_lt_zero j)) ?_ fun e v'' h => h
  rintro (_ | _) v'' ⟨ho', hptr⟩
  · exact wp_pure ⟨ho', fun off h => (nomatch h)⟩
  · refine wp_pure ⟨ho', ?_⟩
    rintro off ⟨rfl⟩
    refine ⟨?_, grown_append hch hsize hnext (fun x hx => ho'.mem_eq (hne x hx)) (hptr rfl)⟩
    rw [hptrs, hfirst]

/-- The first block of a file has nothing before it. -/
theorem grown_first (mem mem' : UInt32 → ℕ → UInt8) (nb : UInt32) : Grown c mem mem' [] nb 0 := by
  refine ⟨?_, fun data hdata _ => ?_⟩
  · rw [List.take_nil]
    exact linked_snoc linked_nil fun h => absurd rfl h
  · rw [List.eq_nil_of_length_eq_zero hdata]
    exact fun p a ha => by simp at ha

/-- **One block.** -/
theorem wp_ctzExtendOnto (hch : Chain c v.mem blk top size) (hnb : nb ∉ blk) :
    wp w (ctzExtendOnto nb top size) (Tried c v blk nb size)
      (fun e v' => v'.Errs e ∧ Only nb v v') v := by
  unfold ctzExtendOnto
  refine wp_bind (wp_bdErase ?_ ?_)
  rotate_left
  · exact fun e junk he => ⟨he, only_spoil v nb 0 1 junk⟩
  intro good junk
  have ho := only_spoil v nb 0 1 junk
  set v₁ := (v.waited 1).withMem nb (spoil v.mem nb 0 junk)
  cases good with
  | false => exact wp_pure ⟨ho, fun off h => (nomatch h)⟩
  | true =>
    rw [if_pos rfl]
    by_cases hsize : size = 0
    · subst hsize
      rw [if_pos rfl]
      obtain rfl : blk = [] := List.eq_nil_of_length_eq_zero hch.length
      refine wp_pure ⟨ho, ?_⟩
      rintro off ⟨rfl⟩
      exact ⟨(placeOf_zero c).symm, grown_first _ _ nb⟩
    · have hlt := size.toNat_lt
      have hbsize := c.bsize_lt
      have hpos : size.toNat ≠ 0 := fun h0 => hsize (UInt32.toNat_inj.1 h0)
      obtain ⟨-, hlen⟩ := hch.split hsize
      have hsub : (size - 1).toNat = size.toNat - 1 :=
        UInt32.toNat_sub_of_le _ _ (UInt32.le_iff_toNat_le.2 (by show 1 ≤ size.toNat; omega))
      obtain ⟨hidx, hplace⟩ := ctzIndex_eq c (size - 1)
      rw [hsub] at hidx hplace
      have hin := placeOf_lt c (show size.toNat - 1 < 2 ^ 32 by omega)
      have hnoff : ((ctzIndex c (size - 1)).2 + 1).toNat = c.placeOf (size.toNat - 1) + 1 := by
        rw [toNat_add_of_lt (by rw [hplace]; show _ + 1 < _; omega), hplace]
        rfl
      have hstep := next_place c (show size.toNat - 1 + 1 < 2 ^ 32 by omega)
      rw [show size.toNat - 1 + 1 = size.toNat by omega] at hstep
      rw [if_neg hsize]
      simp only
      rcases hstep with ⟨hmore, hsame, hgo⟩ | ⟨hfull, hup, hfirst⟩
      · rw [if_pos (fun h0 => by rw [h0] at hnoff; exact absurd hnoff (by show c.bsize ≠ _; omega))]
        exact wp_copyLast hch hnb hsize hnoff hsame hgo ho
      · rw [if_neg (fun h0 => h0 (UInt32.toNat_inj.1 (by rw [hnoff]; exact hfull)))]
        have hindex : ((ctzIndex c (size - 1)).1 + 1).toNat = blk.length := by
          have hsmall := indexOf_lt c (show size.toNat - 1 < 2 ^ 32 by omega)
          rw [toNat_add_of_lt (by rw [hidx]; show _ + 1 < _; omega), hidx]
          exact hlen
        exact wp_appendBlock hch hnb hsize hindex (hup.trans hlen) (by rw [hfirst, hlen]) ho

/-! ## From one bad block to the next -/

/-- The block `nb` was free, and is handed out; nothing else has changed that was in use, or handed
out. -/
structure Handed (c : Config) (v v' : Volume c) (used pend : Finset UInt32) (nb : UInt32) : Prop
    extends Apart (↑(used ∪ pend)) v v' where
  device : nb < c.blockCount
  unused : nb ∉ used
  new : nb ∉ pend
  ready : ∃ pend', pend ⊆ pend' ∧ nb ∈ pend' ∧ Ready c v'.la used pend'
  file : v'.file = v.file

/-- How it ends when no block can be had. -/
def Refused (c : Config) (v : Volume c) (used : Finset UInt32) (e : Stop)
    (v' : Volume c) : Prop :=
  v'.Failed e ∧ Apart used v v' ∧ v'.file = v.file ∧ Ready c v'.la used ∅

theorem Only.outside (h : Only b v v') {s : Finset UInt32} (hb : b ∉ s) : Apart ↑s v v' :=
  h.toApart.mono fun _ hx hxb => hb (hxb ▸ hx)

/-- **The loop over new blocks.** -/
theorem wp_onNewBlock {α : Type} {use : UInt32 → Code c (Option α)}
    {G : UInt32 → α → Volume c → Prop} {v₀ : Volume c} {pend₀ : Finset UInt32}
    (huse : ∀ nb v, nb < c.blockCount → nb ∉ used ∪ pend₀ → Apart ↑(used ∪ pend₀) v₀ v → v.file = v₀.file →
      wp w (use nb) (fun r v' => Only nb v v' ∧ ∀ a, r = some a → G nb a v')
        (fun e v' => v'.Errs e ∧ Only nb v v') v)
    (k : ℕ) (v : Volume c) (pend : Finset UInt32)
    (hpend : pend₀ ⊆ pend) (hr : Ready c v.la used pend) (hv : Visible w v used)
    (ha : Apart ↑(used ∪ pend₀) v₀ v) (hf : v.file = v₀.file) (hk : c.count < pend.card + k) :
    wp w (onNewBlock use k) (fun r v' => Handed c v₀ v' used pend₀ r.1 ∧ G r.1 r.2 v')
      (Refused c v₀ used) v := by
  have hused : (used : Set UInt32) ⊆ ↑(used ∪ pend₀) :=
    Finset.coe_subset.2 Finset.subset_union_left
  induction k generalizing v pend with
  | zero =>
    have hcard := hr.card_le
    omega
  | succ k ih =>
    refine wp_then (wp_volAlloc hr hv) ?_ ?_
    rotate_left
    · rintro e v' ⟨he, hready, hq⟩
      exact ⟨he, (ha.trans (hq.apart _)).mono hused, hq.file.trans hf, hready⟩
    rintro nb v₁ ⟨hdev, hfree, hnew, hready, hq⟩
    have ha₁ := ha.trans (hq.apart _)
    have hf₁ := hq.file.trans hf
    have hout : nb ∉ used ∪ pend₀ := by
      rw [Finset.mem_union]
      rintro (h | h)
      · exact hfree h
      · exact hnew (hpend h)
    refine wp_then (huse nb v₁ hdev hout ha₁ hf₁) ?_ ?_
    rotate_left
    · rintro e v₂ ⟨he, ho⟩
      refine ⟨.inl he, (ha₁.trans (ho.outside hout)).mono hused, ho.file.trans hf₁, ?_⟩
      rw [ho.la]
      exact hready.mono Finset.subset_union_left (Finset.empty_subset _)
    have hgrow : pend₀ ⊆ insert nb pend := hpend.trans (Finset.subset_insert ..)
    rintro (_ | a) v₂ ⟨ho, hG⟩
    · have ha₂ := ha₁.trans (ho.outside hout)
      refine ih v₂ (insert nb pend) hgrow ?_ ?_ ha₂ (ho.file.trans hf₁) ?_
      · rw [ho.la]
        exact hready
      · exact (hv.quiet hq).apart (ho.outside hfree) ho.file
      · rw [Finset.card_insert_of_notMem hnew]
        omega
    · refine wp_pure ⟨⟨ha₁.trans (ho.outside hout), hdev, hfree, fun h => hnew (hpend h), ?_,
        ho.file.trans hf₁⟩, hG a rfl⟩
      refine ⟨insert nb pend, hgrow, Finset.mem_insert_self .., ?_⟩
      rw [ho.la]
      exact hready

/-- **`lfs_ctz_extend`.** -/
theorem wp_ctzExtend (hr : Ready c v.la used pend) (hv : Visible w v used)
    (hch : Chain c v.mem blk top size) (hsub : ∀ x ∈ blk, x ∈ used) :
    wp w (ctzExtend top size)
      (fun r v' => Handed c v v' used pend r.1 ∧ r.2.toNat = c.placeOf size.toNat ∧
        Grown c v.mem v'.mem blk r.1 size.toNat)
      (Refused c v used) v := by
  refine wp_mono (wp_onNewBlock (G := fun nb off v' => off.toNat = c.placeOf size.toNat ∧
    Grown c v.mem v'.mem blk nb size.toNat) ?_ _ v pend (Finset.Subset.refl _) hr hv
    (Apart.refl _ v) rfl (by omega)) ?_ fun e v' h => h
  · intro nb v₁ _ hfree ha hf
    have hmem : ∀ x ∈ blk, v₁.mem x = v.mem x :=
      fun x hx => ha.mem x (Finset.mem_coe.2 (Finset.mem_union_left _ (hsub x hx)))
    refine wp_mono (wp_ctzExtendOnto (hch.congr hmem)
      fun h => hfree (Finset.mem_union_left _ (hsub nb h))) ?_ fun e v' h => h
    rintro r v' ⟨ho, hsome⟩
    refine ⟨ho, fun off hoff => ?_⟩
    obtain ⟨hplace, hgrown⟩ := hsome off hoff
    exact ⟨hplace, hgrown.linked, fun data hdata hholds =>
      hgrown.holds data hdata (hholds.congr hmem)⟩
  · rintro ⟨nb, off⟩ v' ⟨hhand, hG⟩
    exact ⟨hhand, hG⟩

end Boatdash.Lfs
