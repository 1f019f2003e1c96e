import Mathlib.Data.List.Nodup
import Boatdash.Lib.Handles
import Boatdash.Proof.Config

/-!
# The handles of the config store

`config_get_str` closes its handle only when the read succeeds, since one `&&` makes a failed
`nvs_open` and a failed `nvs_get_str` one case; `config_init_defaults` goes on with whatever
its variable held when `nvs_open` fails. `handles_sound_iff`: **over any sequence of calls,
every handle used is one the same call opened and every handle opened is closed before the
call returns, exactly when no initialiser's `nvs_open` fails and every reader that gets a
handle reads its value.** The calls that leave a handle open are the ordinary ones of a key
that has no value; `handles_open` counts them: **as many handles are open as reads failed.**
-/

namespace Boatdash

open Handles

variable {n : Nvs} {r : NvsRes} {key : String}

/-- What a library call does with its handle. -/
def NvsCall.op : NvsCall → Option (Op ℕ)
  | .opened none => none
  | .opened (some h) => some (.acquire h)
  | .setStr h _ _ => some (.use h)
  | .getStr h _ _ => some (.use h)
  | .commit h _ => some (.use h)
  | .close h => some (.release h)

/-- The handles of a call's log. -/
def handleOps (l : List NvsCall) : List (Op ℕ) := l.filterMap NvsCall.op

/-- **A call uses and closes only the handle it has opened, and closes it.** -/
def Nvs.Sound (n : Nvs) (e : ConfigCall) : Prop := Disciplined [] (handleOps (n.made e))

instance (n : Nvs) (e : ConfigCall) : Decidable (n.Sound e) :=
  inferInstanceAs (Decidable (Disciplined _ _))

/-- The initialiser's `nvs_open` succeeds; the reader's fails, or the reader reads its value. -/
def Nvs.Closes (n : Nvs) : ConfigCall → Prop
  | .initDefaults r => r.openFails = false
  | .getStr r key _ outlen _ => r.openFails = true ∨ Fits n.cfg r key outlen

/-! ## The calls made -/

theorem setStr_shape (n : Nvs) (r : NvsRes) (h : ℕ) (key : String) (v : CString) :
    ∃ cfg ok, (n.setStr r h key v).2 =
      { n with cfg := cfg, calls := n.calls ++ [.setStr h key ok] } := by
  unfold Nvs.setStr
  split
  · exact ⟨_, true, rfl⟩
  · exact ⟨n.cfg, false, rfl⟩

/-- The initialiser, whatever its calls return: `h` is the handle it goes on with. -/
theorem initDefaults_shape (r : NvsRes) (n : Nvs) :
    let m := (n.open r true).2
    let h := (n.open r true).1.getD r.junk
    ∃ cfg ok₁ ok₂, configInitDefaults r n =
      { m with cfg := cfg, handles := m.handles.filter (·.1 ≠ h),
               calls := m.calls ++ [.setStr h "ap_psk" ok₁, .commit h ok₂, .close h] } := by
  intro m h
  obtain ⟨cfg, ok, hset⟩ := setStr_shape m r h "ap_psk" apPskDefault
  refine ⟨cfg, ok, ((m.setStr r h "ap_psk" apPskDefault).2.commit r h).1, ?_⟩
  show (((m.setStr r h "ap_psk" apPskDefault).2.commit r h).2).close h = _
  rw [hset]
  simp [Nvs.commit, Nvs.close]

theorem made_eq {e : ConfigCall} {l : List NvsCall} (h : (n.step e).calls = n.calls ++ l) :
    n.made e = l := by
  unfold Nvs.made
  rw [h, List.drop_left]

/-- A call makes the library calls `l` and leaves these handles and this next one. -/
structure Leaves (n : Nvs) (e : ConfigCall) (l : List NvsCall) (handles : List (ℕ × Bool))
    (next : ℕ) : Prop where
  made : n.made e = l
  handles : (n.step e).handles = handles
  next : (n.step e).next = next

/-- The initialiser with no handle: it goes on with what the variable held. -/
theorem leaves_init_junk (hopen : r.openFails = true) (n : Nvs) : ∃ ok₁ ok₂,
    Leaves n (.initDefaults r) [.opened none, .setStr r.junk "ap_psk" ok₁, .commit r.junk ok₂,
      .close r.junk] (n.handles.filter (·.1 ≠ r.junk)) n.next := by
  obtain ⟨cfg, ok₁, ok₂, hinit⟩ := initDefaults_shape r n
  have hstep : n.step (.initDefaults r) = configInitDefaults r n := rfl
  rw [open_fails hopen] at hinit
  rw [← hstep] at hinit
  refine ⟨ok₁, ok₂, made_eq ?_, ?_, ?_⟩
  · rw [hinit]; simp
  · rw [hinit]; rfl
  · rw [hinit]

/-- The initialiser with a handle. -/
theorem leaves_init (hopen : r.openFails = false) (n : Nvs) : ∃ ok₁ ok₂,
    Leaves n (.initDefaults r) [.opened (some n.next), .setStr n.next "ap_psk" ok₁,
        .commit n.next ok₂, .close n.next]
      (((n.next, true) :: n.handles).filter (·.1 ≠ n.next)) (n.next + 1) := by
  obtain ⟨cfg, ok₁, ok₂, hinit⟩ := initDefaults_shape r n
  have hstep : n.step (.initDefaults r) = configInitDefaults r n := rfl
  rw [open_ok hopen] at hinit
  rw [← hstep] at hinit
  refine ⟨ok₁, ok₂, made_eq ?_, ?_, ?_⟩
  · rw [hinit]; simp [Nvs.withHandle]
  · rw [hinit]; rfl
  · rw [hinit]; rfl

variable {out : List UInt8} {m : ℕ} {d : CString}

/-- The reader with no handle. -/
theorem leaves_closed (hopen : r.openFails = true) (n : Nvs) :
    Leaves n (.getStr r key out m d) [.opened none] n.handles n.next := by
  have hstep : n.step (.getStr r key out m d) = (configGetStr r key out m d n).2 := rfl
  rw [getStr_closed hopen] at hstep
  exact ⟨made_eq (by rw [hstep]), by rw [hstep], by rw [hstep]⟩

/-- The reader that reads its value. -/
theorem leaves_hit (hopen : r.openFails = false) (hfit : Fits n.cfg r key m) :
    Leaves n (.getStr r key out m d)
      [.opened (some n.next), .getStr n.next key true, .close n.next]
      (((n.next, false) :: n.handles).filter (·.1 ≠ n.next)) (n.next + 1) := by
  obtain ⟨v, hk, hr, hv⟩ := hfit
  have hstep : n.step (.getStr r key out m d) = (configGetStr r key out m d n).2 := rfl
  rw [getStr_hit hopen hk ⟨hr.2, hv⟩] at hstep
  refine ⟨made_eq ?_, ?_, ?_⟩
  · rw [hstep]; simp [Nvs.withRead, Nvs.close]
  · rw [hstep]; rfl
  · rw [hstep]; rfl

/-- The reader that gets a handle and does not read a value: the handle stays. -/
theorem leaves_miss (hopen : r.openFails = false) (hfit : ¬ Fits n.cfg r key m) :
    Leaves n (.getStr r key out m d) [.opened (some n.next), .getStr n.next key false]
      ((n.next, false) :: n.handles) (n.next + 1) := by
  have hmiss : ∀ v, n.cfg key = some v → ¬ (r.getFails = false ∧ v.length + 1 ≤ m) :=
    fun v hk h => hfit ⟨v, hk, ⟨hopen, h.1⟩, h.2⟩
  have hstep : n.step (.getStr r key out m d) = (configGetStr r key out m d n).2 := rfl
  rw [getStr_miss hopen hmiss] at hstep
  refine ⟨made_eq ?_, ?_, ?_⟩
  · rw [hstep]; simp [Nvs.withRead]
  · rw [hstep]; rfl
  · rw [hstep]; rfl

/-- **One call** is sound exactly if it closes what it opens. -/
theorem sound_iff (n : Nvs) (e : ConfigCall) : n.Sound e ↔ n.Closes e := by
  have hnil : ∀ (h : ℕ) (l : List (Op ℕ)), ¬ Disciplined [] (.use h :: l) :=
    fun h l hd => absurd hd.1 List.not_mem_nil
  unfold Nvs.Sound
  cases e with
  | initDefaults r =>
    cases hopen : r.openFails with
    | true =>
      -- a handle nobody opened
      obtain ⟨ok₁, ok₂, hl⟩ := leaves_init_junk hopen n
      rw [hl.made]
      apply iff_of_false (hnil _ _)
      simp [Nvs.Closes, hopen]
    | false =>
      obtain ⟨ok₁, ok₂, hl⟩ := leaves_init hopen n
      rw [hl.made]
      refine iff_of_true ?_ hopen
      simp [handleOps, NvsCall.op, Disciplined]
  | getStr r key out m d =>
    cases hopen : r.openFails with
    | true =>
      rw [(leaves_closed hopen n).made]
      exact iff_of_true rfl (Or.inl hopen)
    | false =>
      by_cases hfit : Fits n.cfg r key m
      · rw [(leaves_hit hopen hfit).made]
        refine iff_of_true ?_ (Or.inr hfit)
        simp [handleOps, NvsCall.op, Disciplined]
      · -- the handle stays open
        rw [(leaves_miss hopen hfit).made]
        refine iff_of_false ?_ ?_
        · simp [handleOps, NvsCall.op, Disciplined]
        · simp [Nvs.Closes, hopen, hfit]

/-! ## The open handles -/

/-- The open handles, by number. -/
def Nvs.openHandles (n : Nvs) : List ℕ := n.handles.map (·.1)

/-- The open handles are distinct, and the next one is new. -/
structure Nvs.Unique (n : Nvs) : Prop where
  distinct : n.openHandles.Nodup
  fresh : ∀ h ∈ n.openHandles, h < n.next

theorem unique_start (cfg : String → Option CString) : ({ cfg := cfg } : Nvs).Unique :=
  ⟨List.nodup_nil, fun _ h => absurd h List.not_mem_nil⟩

theorem Nvs.Unique.cons (hn : n.Unique) : (n.next :: n.openHandles).Nodup :=
  List.nodup_cons.2 ⟨fun h => lt_irrefl _ (hn.fresh _ h), hn.distinct⟩

/-- `nvs_close` takes its handle from the open ones. -/
theorem filter_erase (hs : List (ℕ × Bool)) (hnd : (hs.map (·.1)).Nodup) (h : ℕ) :
    (hs.filter (·.1 ≠ h)).map (·.1) = (hs.map (·.1)).erase h := by
  rw [hnd.erase_eq_filter, List.filter_map]
  congr 1
  apply List.filter_congr
  intro p _
  by_cases hp : p.1 = h <;> simp [hp]

/-- A call that opens a handle and closes it leaves the others. -/
theorem openHandles_closed (hn : n.Unique) {e : ConfigCall} {l : List NvsCall} {write : Bool}
    (hl : Leaves n e l (((n.next, write) :: n.handles).filter (·.1 ≠ n.next)) (n.next + 1))
    (hops : after n.openHandles (handleOps l) = n.openHandles) :
    (n.step e).openHandles = after n.openHandles (handleOps (n.made e)) ∧ (n.step e).Unique := by
  have hopen : (n.step e).openHandles = n.openHandles := by
    unfold Nvs.openHandles
    rw [hl.handles, filter_erase ((n.next, write) :: n.handles) hn.cons]
    exact List.erase_cons_head ..
  rw [hl.made, hops]
  refine ⟨hopen, ?_, ?_⟩
  · rw [hopen]; exact hn.distinct
  · rw [hopen, hl.next]; exact fun h hm => Nat.lt_succ_of_lt (hn.fresh h hm)

/-- **The open handles follow the calls made.** -/
theorem openHandles_step (hn : n.Unique) (e : ConfigCall) :
    (n.step e).openHandles = after n.openHandles (handleOps (n.made e)) ∧ (n.step e).Unique := by
  cases e with
  | initDefaults r =>
    cases hfail : r.openFails with
    | true =>
      -- whatever handle the variable held is closed
      obtain ⟨ok₁, ok₂, hl⟩ := leaves_init_junk hfail n
      have hopen : (n.step (.initDefaults r)).openHandles = n.openHandles.erase r.junk := by
        unfold Nvs.openHandles; rw [hl.handles]; exact filter_erase n.handles hn.distinct r.junk
      rw [hl.made]
      refine ⟨hopen, ?_, ?_⟩
      · rw [hopen]; exact hn.distinct.erase r.junk
      · rw [hopen, hl.next]; exact fun h hm => hn.fresh h (List.mem_of_mem_erase hm)
    | false =>
      obtain ⟨ok₁, ok₂, hl⟩ := leaves_init hfail n
      exact openHandles_closed hn hl (List.erase_cons_head ..)
  | getStr r key out m d =>
    cases hfail : r.openFails with
    | true =>
      have hl : Leaves n (.getStr r key out m d) _ _ _ := leaves_closed hfail n
      have hopen : (n.step (.getStr r key out m d)).openHandles = n.openHandles := by
        unfold Nvs.openHandles; rw [hl.handles]
      rw [hl.made]
      refine ⟨hopen, ?_, ?_⟩
      · rw [hopen]; exact hn.distinct
      · rw [hopen, hl.next]; exact hn.fresh
    | false =>
      by_cases hfit : Fits n.cfg r key m
      · exact openHandles_closed hn (leaves_hit hfail hfit) (List.erase_cons_head ..)
      · -- the read failed: one more handle is open
        have hl : Leaves n (.getStr r key out m d) _ _ _ := leaves_miss hfail hfit
        have hopen : (n.step (.getStr r key out m d)).openHandles = n.next :: n.openHandles := by
          unfold Nvs.openHandles; rw [hl.handles]; rfl
        rw [hl.made]
        refine ⟨hopen, ?_, ?_⟩
        · rw [hopen]; exact hn.cons
        · rw [hopen, hl.next]
          intro h hm
          rcases List.mem_cons.1 hm with rfl | hm
          · exact Nat.lt_succ_self _
          · exact Nat.lt_succ_of_lt (hn.fresh h hm)

/-- A sound call leaves the open handles as it found them. -/
theorem openHandles_sound (hn : n.Unique) {e : ConfigCall} (he : n.Sound e) :
    (n.step e).openHandles = n.openHandles := by
  have hback : after ([] ++ n.openHandles) (handleOps (n.made e)) = n.openHandles :=
    after_disciplined he
  rw [(openHandles_step hn e).1]
  exact hback

/-- **A run of sound calls.** -/
theorem openHandles_run (es : List ConfigCall) {n : Nvs} (hn : n.Unique)
    (he : configMachine.Along Nvs.Sound n es) :
    (configMachine.run n es).openHandles = n.openHandles := by
  induction es generalizing n with
  | nil => rfl
  | cons e es ih =>
    have hu : (n.step e).Unique := (openHandles_step hn e).2
    have hrest := ih hu he.2
    rw [openHandles_sound hn he.1] at hrest
    exact hrest

/-- The run `es` of calls on the settings `cfg` uses its handles soundly, and any part of it
leaves as many handles open as there were. -/
structure HandlesSound (cfg : String → Option CString) (es : List ConfigCall) : Prop where
  calls : configMachine.Along Nvs.Sound { cfg := cfg } es
  balance : ∀ pre mid, pre ++ mid <+: es →
    (configMachine.run { cfg := cfg } (pre ++ mid)).handles.length =
      (configMachine.run { cfg := cfg } pre).handles.length

/-- **When the handles are used soundly.** -/
theorem handles_sound_iff (cfg : String → Option CString) (es : List ConfigCall) :
    HandlesSound cfg es ↔ configMachine.Along Nvs.Closes { cfg := cfg } es := by
  have hiff : configMachine.Along Nvs.Sound { cfg := cfg } es ↔
      configMachine.Along Nvs.Closes { cfg := cfg } es := by
    simp only [Machine.along_iff, sound_iff]
  rw [← hiff]
  refine ⟨fun h => h.calls, fun h => ⟨h, ?_⟩⟩
  rintro pre mid ⟨post, rfl⟩
  have hstart := unique_start cfg
  have hlen : ∀ n : Nvs, n.handles.length = n.openHandles.length :=
    fun n => (List.length_map ..).symm
  have hmid := openHandles_run (pre ++ mid) hstart h.left
  have hpre := openHandles_run pre hstart h.left.left
  rw [hlen, hlen, hmid, hpre]

/-- **A key without a value**: each read of it leaves a handle open. -/
theorem handle_left_open : ¬ ∀ (cfg : String → Option CString) (es : List ConfigCall),
    HandlesSound cfg es := by
  intro h
  have hs := (h (fun _ => none) [.getStr {} "sta_ssid" (List.replicate 33 0) 33 .empty]).calls
  have hcloses := (sound_iff _ _).1 hs.1
  rcases hcloses with hopen | ⟨v, hv, -⟩
  · cases hopen
  · cases hv

/-! ## The handles left open -/

/-- The initialiser's `nvs_open` succeeds. -/
def Nvs.Opens (_ : Nvs) : ConfigCall → Prop
  | .initDefaults r => r.openFails = false
  | .getStr _ _ _ _ _ => True

instance (n : Nvs) : (e : ConfigCall) → Decidable (n.Opens e)
  | .initDefaults r => inferInstanceAs (Decidable (r.openFails = false))
  | .getStr _ _ _ _ _ => isTrue trivial

/-- The library call is an `nvs_get_str` that failed. -/
def NvsCall.misses : NvsCall → Bool
  | .getStr _ _ ok => !ok
  | _ => false

/-- The failed reads of a run of calls. -/
def failedReads (l : List (ConfigCall × List NvsCall)) : ℕ :=
  (l.flatMap (·.2)).countP NvsCall.misses

/-- A call leaves one more handle open for each of its reads that failed. -/
theorem openHandles_count (hn : n.Unique) {e : ConfigCall} (he : n.Opens e) :
    (n.step e).openHandles.length =
      n.openHandles.length + (n.made e).countP NvsCall.misses := by
  rw [(openHandles_step hn e).1]
  cases e with
  | initDefaults r =>
    obtain ⟨ok₁, ok₂, hl⟩ := leaves_init he n
    rw [hl.made]
    simp [handleOps, NvsCall.op, NvsCall.misses, after]
  | getStr r key out m d =>
    cases hfail : r.openFails with
    | true =>
      rw [(leaves_closed hfail n).made]
      rfl
    | false =>
      by_cases hfit : Fits n.cfg r key m
      · rw [(leaves_hit hfail hfit).made]
        simp [handleOps, NvsCall.op, NvsCall.misses, after]
      · rw [(leaves_miss hfail hfit).made]
        simp [handleOps, NvsCall.op, NvsCall.misses, after]

theorem openHandles_log (es : List ConfigCall) {n : Nvs} (hn : n.Unique)
    (he : configMachine.Along Nvs.Opens n es) :
    (configMachine.run n es).openHandles.length =
      n.openHandles.length + failedReads (configMachine.log n es) := by
  induction es generalizing n with
  | nil => rfl
  | cons e es ih =>
    have hu : (n.step e).Unique := (openHandles_step hn e).2
    have hrest := ih hu he.2
    rw [openHandles_count hn he.1] at hrest
    have hlog : failedReads (configMachine.log n (e :: es)) =
        (n.made e).countP NvsCall.misses + failedReads (configMachine.log (n.step e) es) := by
      show List.countP _ (n.made e ++ _) = _
      rw [List.countP_append]; rfl
    rw [hlog, ← Nat.add_assoc]
    exact hrest

/-- **As many handles are open as reads failed**: nothing else leaves one open, and nothing ever
closes those. -/
theorem handles_open (cfg : String → Option CString) (es : List ConfigCall)
    (h : configMachine.Along Nvs.Opens { cfg := cfg } es) :
    (configMachine.run { cfg := cfg } es).handles.length =
      failedReads (configMachine.log { cfg := cfg } es) := by
  have hlog := openHandles_log es (unique_start cfg) h
  rw [show ({ cfg := cfg } : Nvs).openHandles.length = 0 from rfl, Nat.zero_add] at hlog
  rw [← hlog]
  exact (List.length_map ..).symm

/-- A boot without stored station credentials leaves two handles open. -/
theorem handles_open_boot :
    (configMachine.run { cfg := fun _ => none } [.initDefaults {},
      .getStr {} "ap_psk" (List.replicate 65 0) 65 apPskDefault,
      .getStr {} "sta_ssid" (List.replicate 33 0) 33 .empty,
      .getStr {} "sta_psk" (List.replicate 65 0) 65 .empty]).handles.length = 2 :=
  handles_open (fun _ => none) [.initDefaults {},
    .getStr {} "ap_psk" (List.replicate 65 0) 65 apPskDefault,
    .getStr {} "sta_ssid" (List.replicate 33 0) 33 .empty,
    .getStr {} "sta_psk" (List.replicate 65 0) 65 .empty] (by decide)

end Boatdash
