import Mathlib.Data.List.TakeWhile
import Mathlib.Data.List.Basic

/-!
# C strings, buffers and the copy functions

A `CString` is what a terminated `char *` holds: bytes without a zero. Memory is a
list of bytes; a write at its start is `store`, and grows the list when it runs past
the end. `strncpy` and `strlcpy` follow the C library.

* `ofBuf_store`: a buffer a terminated string was stored in reads back as it.
* `ofBuf_strncpy`: a padded copy reads back as the source when it fits.
* `set_store`: a terminator set behind what was stored in a block of one byte more.
* `holds_store`, `holds_strncpy`: what the two leave in a buffer of `n` bytes. A stored
  string that fits is there with its terminator; a `strncpy` leaves its source, or a part of
  it, exactly when the source is shorter than `n`, since it writes no terminator of its own.
* `strlcpy_zeros`, `field_cut_iff`: a copy into a zeroed field of `n` bytes is the field
  of what was copied, and of the whole string exactly when it is shorter than `n`, since
  `strlcpy` keeps the last byte for the terminator.
-/

/-- The characters of a C string: bytes without a zero. -/
structure CString where
  bytes : List UInt8
  nz : ∀ b ∈ bytes, b ≠ 0
deriving DecidableEq

namespace CString

@[ext] theorem ext {s t : CString} (h : s.bytes = t.bytes) : s = t := by
  cases s; cases t; cases h; rfl

/-- The empty string. -/
def empty : CString := ⟨[], by simp⟩

/-- `strlen`. -/
def length (s : CString) : ℕ := s.bytes.length

/-- The bytes of an ASCII literal. -/
def ascii (s : String) : List UInt8 := s.toList.map fun c => c.toNat.toUInt8

/-- The string a pointer to the memory `buf` reads: the bytes before the first zero. -/
def ofBuf (buf : List UInt8) : CString :=
  ⟨buf.takeWhile (· ≠ 0), fun b hb => by simpa using List.mem_takeWhile_imp hb⟩

/-- The string a literal stands for. -/
def lit (s : String) : CString := ofBuf (ascii s)

/-- `bs` written over the start of `mem`. -/
def store (mem bs : List UInt8) : List UInt8 := bs ++ mem.drop bs.length

/-- `strncpy(dst, src, n)`: at most `n` bytes, padded with zeros up to `n`. -/
def strncpy (dst : List UInt8) (src : CString) (n : ℕ) : List UInt8 :=
  store dst (src.bytes.take n ++ List.replicate (n - src.length) 0)

/-- `strlcpy(dst, src, size)`: at most `size - 1` bytes and a terminator. -/
def strlcpy (dst : List UInt8) (src : CString) (size : ℕ) : List UInt8 :=
  if size = 0 then dst else store dst (src.bytes.take (size - 1) ++ [0])

/-- A field of `n` bytes that holds `s` padded with zeros. -/
def field (n : ℕ) (s : CString) : List UInt8 := s.bytes ++ List.replicate (n - s.length) 0

@[simp] theorem length_empty : empty.length = 0 := rfl

theorem field_empty (n : ℕ) : field n empty = List.replicate n 0 := rfl

/-! ## Reading back -/

/-- Bytes up to a zero read back as the string. -/
theorem ofBuf_terminated (s : CString) (rest : List UInt8) : ofBuf (s.bytes ++ 0 :: rest) = s := by
  ext1
  show (s.bytes ++ 0 :: rest).takeWhile (· ≠ 0) = s.bytes
  rw [List.takeWhile_append_of_pos (fun b hb => by simpa using s.nz b hb)]
  simp

theorem ofBuf_store (s : CString) (mem : List UInt8) :
    ofBuf (store mem (s.bytes ++ [0])) = s := by
  unfold store
  rw [List.append_assoc]
  exact ofBuf_terminated s _

/-- **A `strncpy` that fits reads back as its source.** -/
theorem ofBuf_strncpy {s : CString} {n : ℕ} (h : s.length < n) (dst : List UInt8) :
    ofBuf (strncpy dst s n) = s := by
  obtain ⟨k, hk⟩ : ∃ k, n - s.length = k + 1 := ⟨n - s.length - 1, by omega⟩
  unfold strncpy store
  rw [hk, List.take_of_length_le (le_of_lt h), List.replicate_succ, List.append_assoc,
    List.cons_append]
  exact ofBuf_terminated s _

/-- A field longer than its string reads back as it. -/
theorem ofBuf_field {s : CString} {n : ℕ} (h : s.length < n) : ofBuf (field n s) = s := by
  obtain ⟨k, hk⟩ : ∃ k, n - s.length = k + 1 := ⟨n - s.length - 1, by omega⟩
  unfold field
  rw [hk, List.replicate_succ]
  exact ofBuf_terminated s _

/-- The string cut to at most `n` bytes. -/
def cut (s : CString) (n : ℕ) : CString :=
  ⟨s.bytes.take n, fun b hb => s.nz b (List.mem_of_mem_take hb)⟩

theorem length_cut (s : CString) (n : ℕ) : (s.cut n).length = min n s.length := by
  simp [cut, length]

theorem cut_of_le {s : CString} {n : ℕ} (h : s.length ≤ n) : s.cut n = s :=
  ext (List.take_of_length_le h)

/-! ## Strings in a buffer -/

/-- A write to `mem` that left `mem'` has put `s` and a terminator into the first `n` bytes, and
has written nothing past them. -/
structure Holds (n : ℕ) (s : CString) (mem mem' : List UInt8) : Prop where
  terminated : (0 : UInt8) ∈ mem'.take n
  string : ofBuf (mem'.take n) = s
  beyond : mem'.drop n = mem.drop n

/-- The first bytes after a write that stays within them. -/
theorem take_store {mem bs : List UInt8} {n : ℕ} (h : bs.length ≤ n) :
    (store mem bs).take n = bs ++ (mem.drop bs.length).take (n - bs.length) := by
  unfold store
  rw [List.take_append, List.take_of_length_le h]

/-- A write leaves what lies past it. -/
theorem drop_store {mem bs : List UInt8} {n : ℕ} (h : bs.length ≤ n) :
    (store mem bs).drop n = mem.drop n := by
  unfold store
  rw [List.drop_append, List.drop_eq_nil_of_le h, List.nil_append, List.drop_drop]
  congr 1
  omega

/-- One byte more in memory than was stored, set afterwards. -/
theorem set_store {mem bs : List UInt8} (h : mem.length = bs.length + 1) (b : UInt8) :
    (store mem bs).set bs.length b = bs ++ [b] := by
  obtain ⟨c, hc⟩ : ∃ c, mem.drop bs.length = [c] := by
    rw [← List.length_eq_one_iff, List.length_drop]; omega
  unfold store
  rw [hc, List.set_append_right _ _ le_rfl, Nat.sub_self]
  rfl

theorem holds_store {s : CString} {n : ℕ} (h : s.length < n) (mem : List UInt8) :
    Holds n s mem (store mem (s.bytes ++ [0])) := by
  have hlen : (s.bytes ++ [0]).length ≤ n := by
    rw [List.length_append]; exact h
  refine ⟨?_, ?_, drop_store hlen⟩
  · rw [take_store hlen]; simp
  · rw [take_store hlen, List.append_assoc]; exact ofBuf_terminated s _

/-- **A `strncpy` leaves a string exactly when its source is shorter than the buffer.** -/
theorem holds_strncpy {s : CString} {n : ℕ} (mem : List UInt8) :
    Holds n (s.cut (n - 1)) mem (strncpy mem s n) ↔ s.length < n := by
  set bs := s.bytes.take n ++ List.replicate (n - s.length) 0 with hbs
  have hlen : bs.length = n := by
    rw [hbs, List.length_append, List.length_take, List.length_replicate]
    unfold length
    omega
  have htake : (strncpy mem s n).take n = bs := by
    show (store mem bs).take n = bs
    rw [take_store hlen.le, hlen, Nat.sub_self, List.take_zero, List.append_nil]
  constructor
  · intro hholds
    by_contra hge
    -- the source fills the buffer, and holds no zero
    have hfull : n - s.length = 0 := by omega
    have hmem : (0 : UInt8) ∈ bs := htake ▸ hholds.terminated
    rw [hbs, hfull, List.replicate_zero, List.append_nil] at hmem
    exact s.nz 0 (List.mem_of_mem_take hmem) rfl
  · intro h
    have hpad : bs = field n s := by
      rw [hbs, List.take_of_length_le h.le]; rfl
    have hbeyond : (strncpy mem s n).drop n = mem.drop n := drop_store hlen.le
    refine ⟨?_, ?_, hbeyond⟩
    · rw [htake, hpad, field]
      refine List.mem_append_right _ (List.mem_replicate.2 ⟨?_, rfl⟩)
      omega
    · rw [htake, hpad, cut_of_le (by omega), ofBuf_field h]

/-! ## Copies into a zeroed field -/

/-- **`strlcpy` into a zeroed field** leaves the field of what it copied. -/
theorem strlcpy_zeros (s : CString) {n : ℕ} (hn : 0 < n) :
    strlcpy (List.replicate n 0) s n = field n (s.cut (n - 1)) := by
  have hlen : (s.cut (n - 1)).length ≤ n - 1 := by rw [length_cut]; exact min_le_left _ _
  have hk : n - (s.cut (n - 1)).length = (n - ((s.cut (n - 1)).length + 1)) + 1 := by omega
  unfold strlcpy store field
  rw [if_neg (by omega), List.append_assoc, hk, List.replicate_succ]
  simp [cut, length, List.drop_replicate]

/-- Fields of strings that leave room read back, so they tell the strings apart. -/
theorem field_inj {s t : CString} {n : ℕ} (hs : s.length < n) (ht : t.length < n)
    (h : field n s = field n t) : s = t := by
  rw [← ofBuf_field hs, h, ofBuf_field ht]

/-- **What `strlcpy` copies into a field is the whole string exactly when that leaves room for
the terminator.** -/
theorem field_cut_iff {s : CString} {n : ℕ} (hn : 0 < n) :
    field n (s.cut (n - 1)) = field n s ↔ s.length < n := by
  constructor
  · intro h
    by_contra hlt
    have hcut : (s.cut (n - 1)).length < n := by rw [length_cut]; omega
    have hfull : n - s.length = 0 := by omega
    -- the field of what was copied ends in a zero, a full one holds none
    have hmem : (0 : UInt8) ∈ field n (s.cut (n - 1)) := by
      unfold field
      refine List.mem_append_right _ (List.mem_replicate.2 ⟨?_, rfl⟩)
      omega
    rw [h, field, hfull, List.replicate_zero, List.append_nil] at hmem
    exact s.nz 0 hmem rfl
  · intro h
    rw [cut_of_le (by omega)]

end CString
