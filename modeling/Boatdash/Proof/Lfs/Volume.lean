import Boatdash.Spec.Lfs.Volume

/-!
# The calls of the device, one rule each

What is true after a call, for each way it can end. An error that comes up is the result of the
last call (`Gave`), and no bad block (`Errs`).
-/

namespace Boatdash.Lfs

open Prog

variable {c : Config} {v : Volume c} {b off : UInt32} {n : ℕ} {w : Prop}

/-- The error is the result of the last call, which was of the kind `op`. -/
def Volume.Gave (v : Volume c) (op : Op) (e : Stop) : Prop :=
  ∃ i, v.calls = i + 1 ∧ v.env.result op i ≠ 0 ∧ e = .err (v.env.result op i)

/-- The error is the result of the last call, and not that of a bad block. -/
def Volume.Errs (v : Volume c) (e : Stop) : Prop :=
  ∃ op, v.Gave op e ∧ (op.writes = true → e ≠ .err errCorrupt)

theorem Volume.Gave.errs {op : Op} {e : Stop} (h : v.Gave op e) (hop : op.writes = false) :
    v.Errs e := ⟨op, h, fun hon => absurd (hop.symm.trans hon) (by decide)⟩

/-- The device has a bad block. -/
def Env.Bad (env : Env) : Prop := ∃ op i, op.writes = true ∧ env.result op i = errCorrupt

/-- The volume `n` calls later that changed nothing. -/
def Volume.waited (v : Volume c) (n : ℕ) : Volume c := { v with calls := v.calls + n }

/-- The volume with other bytes in the block `b`. -/
def Volume.withMem (v : Volume c) (b : UInt32) (mem : UInt32 → ℕ → UInt8) : Volume c :=
  { v with mem := mem, unflushed := b :: v.unflushed }

/-- The volume with the file's cache flushed. -/
def Volume.flushed (v : Volume c) : Volume c :=
  { v with unflushed := [], unsynced := v.unflushed ++ v.unsynced }

/-- The volume with the device synced. -/
def Volume.synced (v : Volume c) : Volume c := { v with unsynced := [] }

theorem waited_zero (v : Volume c) : v.waited 0 = v := rfl

theorem waited_waited (v : Volume c) (m n : ℕ) : (v.waited m).waited n = v.waited (m + n) := by
  unfold Volume.waited
  rw [Nat.add_assoc]

theorem wp_call {op : Op} {Q : ℤ × (ℕ → UInt8) → Volume c → Prop} {E : Stop → Volume c → Prop}
    (h : Q (v.env.result op v.calls, v.env.junk v.calls) (v.waited 1)) : wp w (call op) Q E v :=
  wp_bind (wp_look (wp_bind (wp_update (wp_pure h))))

theorem gave_waited {op : Op} (h : v.env.result op v.calls ≠ 0) :
    (v.waited 1).Gave op (.err (v.env.result op v.calls)) := ⟨v.calls, rfl, h, rfl⟩

/-- A read of bytes that are inside a block of the device. -/
theorem wp_bdRead {Q : List UInt8 → Volume c → Prop} {E : Stop → Volume c → Prop}
    (hfit : off.toNat + n ≤ c.blockSize.toNat) (hb : b < c.blockCount)
    (hQ : Q (bytesAt v.mem b off.toNat n) (v.waited 1))
    (hE : ∀ e, (v.waited 1).Gave .read e → E e (v.waited 1)) : wp w (bdRead b off n) Q E v := by
  have hin : ¬ (c.blockSize.toNat < off.toNat + n ∨ c.blockCount ≤ b) := by
    rintro (h | h)
    · omega
    · exact absurd hb (UInt32.not_lt.2 h)
  unfold bdRead
  rw [if_neg hin]
  apply wp_bind
  apply wp_call
  by_cases herr : v.env.result .read v.calls ≠ 0
  · simp only [if_pos herr]
    exact wp_fail (hE _ (gave_waited herr))
  · simp only [if_neg herr]
    exact wp_bind (wp_look (wp_pure hQ))

theorem wp_bdRead32 {Q : UInt32 → Volume c → Prop} {E : Stop → Volume c → Prop}
    (hfit : off.toNat + 4 ≤ c.blockSize.toNat) (hb : b < c.blockCount)
    (hQ : Q (wordAt v.mem b off.toNat) (v.waited 1))
    (hE : ∀ e, (v.waited 1).Gave .read e → E e (v.waited 1)) : wp w (bdRead32 b off) Q E v :=
  wp_bind (wp_bdRead hfit hb (wp_pure hQ) hE)

/-- How a call ends that may find a bad block. -/
theorem wp_bad {Q : Bool → Volume c → Prop} {E : Stop → Volume c → Prop} (op : Op) {e : ℤ}
    (hop : v.Gave op (.err e)) (hQ : e = errCorrupt → Q false v)
    (hE : v.Errs (.err e) → E (.err e) v) :
    wp w (if e = errCorrupt then return false else fail (.err e) : Code c Bool) Q E v := by
  by_cases hcorrupt : e = errCorrupt
  · rw [if_pos hcorrupt]
    exact wp_pure (hQ hcorrupt)
  · rw [if_neg hcorrupt]
    exact wp_fail (hE ⟨op, hop, fun _ heq => hcorrupt (Stop.err.inj heq)⟩)

/-- A program: the bytes are written, or they are spoiled. -/
theorem wp_bdProg {Q : Bool → Volume c → Prop} {E : Stop → Volume c → Prop} {data : List UInt8}
    (hgood : Q true ((v.waited 1).withMem b (setBytes v.mem b off.toNat data)))
    (hbad : ∀ junk, v.env.Bad →
      Q false ((v.waited 1).withMem b (spoil v.mem b off.toNat junk)))
    (hE : ∀ e junk, (v.waited 1).Errs e →
      E e ((v.waited 1).withMem b (spoil v.mem b off.toNat junk))) :
    wp w (bdProg b off data) Q E v := by
  unfold bdProg
  apply wp_bind
  apply wp_call
  by_cases hok : v.env.result .prog v.calls = 0
  · simp only [if_pos hok]
    exact wp_bind (wp_update (wp_pure hgood))
  · simp only [if_neg hok]
    exact wp_bind (wp_update (wp_bad .prog (gave_waited hok)
      (fun hcorrupt => hbad _ ⟨.prog, _, rfl, hcorrupt⟩) (hE _ _)))

/-- An erase: what is in the block then is anything. -/
theorem wp_bdErase {Q : Bool → Volume c → Prop} {E : Stop → Volume c → Prop}
    (hQ : ∀ good junk, Q good ((v.waited 1).withMem b (spoil v.mem b 0 junk)))
    (hE : ∀ e junk, (v.waited 1).Errs e →
      E e ((v.waited 1).withMem b (spoil v.mem b 0 junk))) :
    wp w (bdErase b) Q E v := by
  unfold bdErase
  apply wp_bind
  apply wp_call
  refine wp_bind (wp_update ?_)
  by_cases hok : v.env.result .erase v.calls = 0
  · simp only [if_pos hok]
    exact wp_pure (hQ true _)
  · simp only [if_neg hok]
    exact wp_bad .erase (gave_waited hok) (fun _ => hQ false _) (hE _ _)

theorem wp_bdFlush {Q : Bool → Volume c → Prop} {E : Stop → Volume c → Prop}
    (hgood : Q true (v.waited 1).flushed) (hbad : v.env.Bad → Q false (v.waited 1))
    (hE : ∀ e, (v.waited 1).Errs e → E e (v.waited 1)) : wp w bdFlush Q E v := by
  unfold bdFlush
  apply wp_bind
  apply wp_call
  by_cases hok : v.env.result .flush v.calls = 0
  · simp only [if_pos hok]
    exact wp_bind (wp_update (wp_pure hgood))
  · simp only [if_neg hok]
    exact wp_bad .flush (gave_waited hok) (fun hcorrupt => hbad ⟨.flush, _, rfl, hcorrupt⟩)
      (hE _)

theorem wp_bdSync {Q : Unit → Volume c → Prop} {E : Stop → Volume c → Prop}
    (hQ : Q () (v.waited 1).synced) (hE : ∀ e, (v.waited 1).Errs e → E e (v.waited 1)) :
    wp w bdSync Q E v := by
  unfold bdSync
  apply wp_bind
  apply wp_call
  by_cases hok : v.env.result .sync v.calls = 0
  · simp only [if_pos hok]
    exact wp_update hQ
  · simp only [if_neg hok]
    exact wp_fail (hE _ ((gave_waited hok).errs rfl))

theorem wp_dirCall {Q : Unit → Volume c → Prop} {E : Stop → Volume c → Prop}
    (hQ : Q () (v.waited 1)) (hE : ∀ e, (v.waited 1).Errs e → E e (v.waited 1)) :
    wp w dirCall Q E v := by
  unfold dirCall
  apply wp_bind
  apply wp_call
  by_cases hok : v.env.result .dir v.calls = 0
  · simp only [if_pos hok]
    exact wp_pure hQ
  · simp only [if_neg hok]
    exact wp_fail (hE _ ((gave_waited hok).errs rfl))

/-! ## Bytes that stay -/

variable {mem : UInt32 → ℕ → UInt8} {x : UInt32} {i : ℕ} {data : List UInt8} {junk : ℕ → UInt8}

theorem setBytes_other (h : x ≠ b) : setBytes mem b n data x = mem x := by
  funext i
  exact if_neg fun hx => h hx.1

theorem setBytes_below (h : i < n) : setBytes mem b n data b i = mem b i :=
  if_neg fun hx => by omega

theorem setBytes_at {a : UInt8} (h : data[i]? = some a) :
    setBytes mem b n data b (n + i) = a := by
  unfold setBytes
  rw [if_pos ⟨rfl, Nat.le_add_right ..⟩, Nat.add_sub_cancel_left, h, Option.getD_some]

theorem spoil_other (h : x ≠ b) : spoil mem b n junk x = mem x := by
  funext i
  exact if_neg fun hx => h hx.1

theorem spoil_below (h : i < n) : spoil mem b n junk b i = mem b i :=
  if_neg fun hx => by omega

theorem length_bytesAt (mem : UInt32 → ℕ → UInt8) (b : UInt32) (off n : ℕ) :
    (bytesAt mem b off n).length = n := by
  unfold bytesAt
  rw [List.length_map, List.length_range]

theorem getElem?_bytesAt {mem : UInt32 → ℕ → UInt8} {b : UInt32} {off n i : ℕ} (h : i < n) :
    (bytesAt mem b off n)[i]? = some (mem b (off + i)) := by
  unfold bytesAt
  rw [List.getElem?_map, List.getElem?_range h]
  rfl

theorem bytesAt_congr {mem' : UInt32 → ℕ → UInt8} {off : ℕ}
    (h : ∀ i, off ≤ i → i < off + n → mem' b i = mem b i) :
    bytesAt mem' b off n = bytesAt mem b off n := by
  apply List.map_congr_left
  intro i hi
  have hlt := List.mem_range.1 hi
  exact h _ (Nat.le_add_right ..) (by omega)

theorem wordAt_congr {mem' : UInt32 → ℕ → UInt8} {off : ℕ}
    (h : ∀ i, off ≤ i → i < off + 4 → mem' b i = mem b i) :
    wordAt mem' b off = wordAt mem b off := by
  unfold wordAt
  rw [bytesAt_congr h]

/-- A byte of a number, back in its place. -/
theorem getLsbD_byte (x : BitVec 32) (k : ℕ) {i : ℕ} (hi : i < 32) :
    (((x >>> k).setWidth 8).setWidth 32 <<< k).getLsbD i =
      (decide (k ≤ i ∧ i < k + 8) && x.getLsbD i) := by
  rw [BitVec.getLsbD_shiftLeft, BitVec.getLsbD_setWidth, BitVec.getLsbD_setWidth,
    BitVec.getLsbD_ushiftRight]
  rcases Nat.lt_or_ge i k with h | h
  · simp [h, show ¬ (k ≤ i ∧ i < k + 8) by omega]
  · rw [Nat.add_sub_cancel' h]
    by_cases hlt : i < k + 8
    · simp [hi, h, hlt, show ¬ i < k by omega, show i - k < 8 by omega, show i - k < 32 by omega]
    · simp [hlt, show ¬ i - k < 8 by omega]

/-- A number that was stored is read back. -/
theorem fromLe32_le32 (a : UInt32) : fromLe32 (le32 a) = a := by
  have hparts : (fromLe32 (le32 a)).toBitVec =
      ((a.toBitVec >>> 0).setWidth 8).setWidth 32 <<< 0 |||
        ((a.toBitVec >>> 8).setWidth 8).setWidth 32 <<< 8 |||
        ((a.toBitVec >>> 16).setWidth 8).setWidth 32 <<< 16 |||
        ((a.toBitVec >>> 24).setWidth 8).setWidth 32 <<< 24 := by
    rw [BitVec.ushiftRight_zero, BitVec.shiftLeft_zero]
    rfl
  rw [← UInt32.toBitVec_inj, hparts]
  apply BitVec.eq_of_getLsbD_eq
  intro i hi
  rw [BitVec.getLsbD_or, BitVec.getLsbD_or, BitVec.getLsbD_or, getLsbD_byte _ 0 hi,
    getLsbD_byte _ 8 hi, getLsbD_byte _ 16 hi, getLsbD_byte _ 24 hi]
  cases a.toBitVec.getLsbD i with
  | false => simp
  | true =>
    simp only [Bool.and_true, ← Bool.decide_or, decide_eq_true_eq]
    omega

end Boatdash.Lfs
