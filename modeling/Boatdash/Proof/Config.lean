import Boatdash.Spec.Config

/-!
# What `config_init_defaults` and `config_get_str` do

* `initDefaults_cfg`: with no handle open before it, the initialiser sets `ap_psk` to the
  built-in password whenever `nvs_open` and `nvs_set_str` succeed, stored value or not.
* `getStr_value`: the reader delivers the stored string if it reads it and it fits, and the
  default otherwise.
-/

namespace Boatdash

variable {r : NvsRes} {n : Nvs} {key : String}

/-- The calls of the initialiser that write succeed. -/
def NvsRes.Sets (r : NvsRes) : Prop := r.openFails = false ∧ r.setFails = false

/-- The calls of the reader succeed, on a key that exists and fits. -/
def NvsRes.Reads (r : NvsRes) : Prop := r.openFails = false ∧ r.getFails = false

instance : Decidable r.Sets := inferInstanceAs (Decidable (_ ∧ _))

instance : Decidable r.Reads := inferInstanceAs (Decidable (_ ∧ _))

/-- What the reader delivers for `key` into a buffer of `m` bytes. -/
def delivered (cfg : String → Option CString) (r : NvsRes) (key : String) (m : ℕ)
    (defval : CString) : CString :=
  match cfg key with
  | none => defval
  | some v => if r.Reads ∧ v.length + 1 ≤ m then v else defval

/-- The reader finds a value for `key`, reads it, and it fits `m` bytes with its terminator. -/
def Fits (cfg : String → Option CString) (r : NvsRes) (key : String) (m : ℕ) : Prop :=
  ∃ v, cfg key = some v ∧ r.Reads ∧ v.length + 1 ≤ m

/-! ## The initialiser -/

/-- The initialiser whose `nvs_open` fails: nothing is written, since no handle is open. -/
theorem initDefaults_closed (hopen : r.openFails = true) (hn : n.handles = []) :
    (configInitDefaults r n).cfg = n.cfg ∧
      (configInitDefaults r n).calls = n.calls ++ [.opened none, .setStr r.junk "ap_psk" false,
        .commit r.junk false, .close r.junk] := by
  simp [configInitDefaults, Nvs.open, Nvs.setStr, Nvs.commit, Nvs.close, hopen, hn]

theorem initDefaults_open (hopen : r.openFails = false) :
    (configInitDefaults r n).cfg =
        (if r.setFails = false then Function.update n.cfg "ap_psk" (some apPskDefault)
          else n.cfg) ∧
      (configInitDefaults r n).calls = n.calls ++ [.opened (some n.next),
        .setStr n.next "ap_psk" (!r.setFails), .commit n.next (!r.commitFails),
        .close n.next] := by
  cases hset : r.setFails <;> cases hcommit : r.commitFails <;>
    simp [configInitDefaults, Nvs.open, Nvs.setStr, Nvs.commit, Nvs.close, hopen, hset, hcommit]

/-- **The settings after the initialiser.** -/
theorem initDefaults_cfg (r : NvsRes) (hn : n.handles = []) :
    (configInitDefaults r n).cfg =
      if r.Sets then Function.update n.cfg "ap_psk" (some apPskDefault) else n.cfg := by
  by_cases hs : r.Sets
  · rw [if_pos hs, (initDefaults_open hs.1).1, if_pos hs.2]
  · rw [if_neg hs]
    cases hopen : r.openFails with
    | true => exact (initDefaults_closed hopen hn).1
    | false => rw [(initDefaults_open hopen).1, if_neg fun h => hs ⟨hopen, h⟩]

/-- **What the initialiser writes.** -/
theorem initDefaults_writes (r : NvsRes) (hn : n.handles = []) (hc : n.calls = []) (h : ℕ)
    (key : String) :
    .setStr h key true ∈ (configInitDefaults r n).calls ↔ r.Sets ∧ h = n.next ∧ key = "ap_psk" := by
  unfold NvsRes.Sets
  cases hopen : r.openFails with
  | true => rw [(initDefaults_closed hopen hn).2, hc]; simp
  | false =>
    rw [(initDefaults_open hopen).2, hc]
    cases hset : r.setFails <;> simp

/-! ## The reader -/

/-- A call of the library that reads or closes. -/
def NvsCall.ReadOnly : NvsCall → Prop
  | .setStr _ _ _ => False
  | _ => True

/-- The store with the handle a successful `nvs_open` returns. -/
def Nvs.withHandle (n : Nvs) (write : Bool) : Nvs :=
  { n with handles := (n.next, write) :: n.handles, next := n.next + 1,
           calls := n.calls ++ [.opened (some n.next)] }

theorem open_ok (h : r.openFails = false) (n : Nvs) (write : Bool) :
    n.open r write = (some n.next, n.withHandle write) := by
  have hno : ¬ r.openFails = true := by rw [h]; decide
  unfold Nvs.open; rw [if_neg hno]; rfl

theorem open_fails (h : r.openFails = true) (n : Nvs) (write : Bool) :
    n.open r write = (none, { n with calls := n.calls ++ [.opened none] }) := by
  unfold Nvs.open; rw [if_pos h]

/-- The store after a call of `nvs_get_str` through the handle just opened. -/
def Nvs.withRead (n : Nvs) (key : String) (ok : Bool) : Nvs :=
  { n.withHandle false with
    calls := n.calls ++ [.opened (some n.next)] ++ [.getStr n.next key ok] }

variable {out : List UInt8} {m : ℕ} {d : CString}

theorem getStr_closed (hopen : r.openFails = true) : configGetStr r key out m d n =
    (CString.strncpy out d m, { n with calls := n.calls ++ [.opened none] }) := by
  unfold configGetStr; rw [open_fails hopen]

/-- The handle just opened may be read through. -/
theorem withHandle_open (n : Nvs) : (n.next, false) ∈ (n.withHandle false).handles ∨
    (n.next, true) ∈ (n.withHandle false).handles := Or.inl List.mem_cons_self

/-- A value that is read and fits. -/
theorem getStr_hit (hopen : r.openFails = false) {v : CString} (hk : n.cfg key = some v)
    (hv : r.getFails = false ∧ v.length + 1 ≤ m) : configGetStr r key out m d n =
      (CString.store out (v.bytes ++ [0]), (n.withRead key true).close n.next) := by
  have hget : (n.withHandle false).getStr r n.next key out m =
      (true, CString.store out (v.bytes ++ [0]), n.withRead key true) := by
    have hk' : (n.withHandle false).cfg key = some v := hk
    unfold Nvs.getStr
    rw [if_pos (withHandle_open n), hk']
    exact if_pos hv
  simp only [configGetStr, open_ok hopen, hget]

/-- No value, one that does not fit, or a failed read: the handle stays open. -/
theorem getStr_miss (hopen : r.openFails = false)
    (hno : ∀ v, n.cfg key = some v → ¬ (r.getFails = false ∧ v.length + 1 ≤ m)) :
    configGetStr r key out m d n = (CString.strncpy out d m, n.withRead key false) := by
  have hget : (n.withHandle false).getStr r n.next key out m =
      (false, out, n.withRead key false) := by
    unfold Nvs.getStr
    rw [if_pos (withHandle_open n)]
    cases hk : n.cfg key with
    | none =>
      have hk' : (n.withHandle false).cfg key = none := hk
      rw [hk']; rfl
    | some v =>
      have hk' : (n.withHandle false).cfg key = some v := hk
      rw [hk']; exact if_neg (hno v hk)
  simp only [configGetStr, open_ok hopen, hget]

/-- **The reader, in two cases.** It stores the value it read, or the default, padded; its
calls write nothing. -/
theorem getStr_cases (r : NvsRes) (key : String) (out : List UInt8) (m : ℕ) (d : CString)
    (n : Nvs) :
    ∃ l, (∀ c ∈ l, c.ReadOnly) ∧ (configGetStr r key out m d n).2.cfg = n.cfg ∧
      (configGetStr r key out m d n).2.calls = n.calls ++ l ∧
      ((∃ v, n.cfg key = some v ∧ (r.Reads ∧ v.length + 1 ≤ m) ∧
          (configGetStr r key out m d n).1 = CString.store out (v.bytes ++ [0])) ∨
        ((∀ v, n.cfg key = some v → ¬ (r.Reads ∧ v.length + 1 ≤ m)) ∧
          (configGetStr r key out m d n).1 = CString.strncpy out d m)) := by
  have hone : ∀ c : NvsCall, c.ReadOnly → ∀ c' ∈ [c], c'.ReadOnly := by
    intro c hc c' hc'; rw [List.mem_singleton.1 hc']; exact hc
  have happ : ∀ l l' : List NvsCall, (∀ c ∈ l, c.ReadOnly) → (∀ c ∈ l', c.ReadOnly) →
      ∀ c ∈ l ++ l', c.ReadOnly :=
    fun l l' hl hl' c hc => (List.mem_append.1 hc).elim (hl c) (hl' c)
  have hopened := hone (.opened (some n.next)) trivial
  have hread : ∀ ok, ∀ c ∈ [NvsCall.getStr n.next key ok], c.ReadOnly :=
    fun ok => hone (.getStr n.next key ok) trivial
  have hclose := hone (.close n.next) trivial
  cases hopen : r.openFails with
  | true =>
    have hno : ∀ v, n.cfg key = some v → ¬ (r.Reads ∧ v.length + 1 ≤ m) :=
      fun v _ h => Bool.noConfusion (hopen.symm.trans h.1.1)
    rw [getStr_closed hopen]
    exact ⟨[.opened none], hone (.opened none) trivial, rfl, rfl, Or.inr ⟨hno, rfl⟩⟩
  | false =>
    by_cases hhit : ∃ v, n.cfg key = some v ∧ r.getFails = false ∧ v.length + 1 ≤ m
    · obtain ⟨v, hk, hv⟩ := hhit
      rw [getStr_hit hopen hk hv]
      refine ⟨[.opened (some n.next)] ++ ([.getStr n.next key true] ++ [.close n.next]),
        happ _ _ hopened (happ _ _ (hread true) hclose), rfl, ?_,
        Or.inl ⟨v, hk, ⟨⟨hopen, hv.1⟩, hv.2⟩, rfl⟩⟩
      simp only [Nvs.withRead, Nvs.close, List.append_assoc]
    · have hmiss : ∀ v, n.cfg key = some v → ¬ (r.getFails = false ∧ v.length + 1 ≤ m) :=
        fun v hk h => hhit ⟨v, hk, h⟩
      rw [getStr_miss hopen hmiss]
      refine ⟨[.opened (some n.next)] ++ [.getStr n.next key false],
        happ _ _ hopened (hread false), rfl, ?_,
        Or.inr ⟨fun v hk h => hmiss v hk ⟨h.1.2, h.2⟩, rfl⟩⟩
      simp only [Nvs.withRead, List.append_assoc]

/-- **What the reader delivers.** -/
theorem getStr_value {d : CString} {m : ℕ} (hd : d.length < m) (r : NvsRes) (key : String)
    (out : List UInt8) (n : Nvs) :
    CString.ofBuf (configGetStr r key out m d n).1 = delivered n.cfg r key m d := by
  obtain ⟨l, -, -, -, ⟨v, hk, hv, hout⟩ | ⟨hno, hout⟩⟩ := getStr_cases r key out m d n
  · rw [hout]
    simp only [delivered, hk, if_pos hv]
    exact CString.ofBuf_store v out
  · -- the default, copied where the stored value is not
    rw [hout, CString.ofBuf_strncpy hd]
    unfold delivered
    cases hk : n.cfg key with
    | none => rfl
    | some v => exact (if_neg (hno v hk)).symm

end Boatdash
