import Boatdash.Proof.Boot

/-!
# Settings over reboots

`config_init_defaults` sets `ap_psk` on every boot, whether it has a value or not. `kept` is
what the settings should be: the values written by others, and the built-in password where
there was none. `settings_kept_iff`: **over any run of boots, writes and updates, no boot
touches a stored setting and every boot reads the password last written, exactly when no
boot's initialiser gets to write while `ap_psk` has a value.**
-/

namespace Boatdash

/-- The boots considered run up to the reads. -/
def Device.okBoot (_ : Device) : DevEvent → Prop
  | .boot env k => env.Starts ∧ 8 ≤ k
  | _ => True

/-- **A boot leaves every stored setting, and writes only a key that is absent.** -/
def Device.KeepsSettings (d : Device) : DevEvent → Prop
  | .boot env k => (∀ key v, d.cfg key = some v → (d.board env k).nvs.cfg key = some v) ∧
      ∀ h key, .setStr h key true ∈ (d.board env k).nvs.calls → d.cfg key = none
  | _ => True

/-- The initialiser of a boot finds no `ap_psk`, or fails to write. -/
def Device.NoOverwrite (d : Device) : DevEvent → Prop
  | .boot env _ => d.cfg "ap_psk" = none ∨ ¬ env.initDefaults.Sets
  | _ => True

instance (d : Device) : (e : DevEvent) → Decidable (d.okBoot e)
  | .boot env k => inferInstanceAs (Decidable (env.Starts ∧ 8 ≤ k))
  | .install | .write _ _ => isTrue trivial

instance (d : Device) : (e : DevEvent) → Decidable (d.NoOverwrite e)
  | .boot env _ =>
    inferInstanceAs (Decidable (d.cfg "ap_psk" = none ∨ ¬ env.initDefaults.Sets))
  | .install | .write _ _ => isTrue trivial

/-- The settings as they should be after an event. -/
def keptStep (cfg : String → Option CString) : DevEvent → String → Option CString
  | .boot env _ =>
    if env.initDefaults.Sets ∧ cfg "ap_psk" = none then
      Function.update cfg "ap_psk" (some apPskDefault)
    else cfg
  | .install => cfg
  | .write key val => Function.update cfg key val

/-- The settings as they should be after a run. -/
def kept (cfg : String → Option CString) (es : List DevEvent) : String → Option CString :=
  es.foldl keptStep cfg

/-- **A boot whose reads succeed reads the password last written**, when it fits. -/
def ReadsLast (cfg : String → Option CString) (es : List DevEvent) : Prop :=
  ∀ pre env k, pre ++ [.boot env k] <+: es → env.getApPsk.Reads →
    ∀ v, kept cfg (pre ++ [.boot env k]) "ap_psk" = some v → v.length ≤ 64 →
      CString.ofBuf ((deviceMachine.run (.made cfg) pre).board env k).apPsk = v

variable {d : Device} {env : BootEnv} {k : ℕ}

/-- **One boot**: the settings, what it wrote, and the password it read. -/
theorem boot_settings (h : d.okBoot (.boot env k)) :
    (d.board env k).nvs.cfg = settled env d.cfg ∧
      (∀ h key, .setStr h key true ∈ (d.board env k).nvs.calls ↔
        env.initDefaults.Sets ∧ h = 1 ∧ key = "ap_psk") ∧
      CString.ofBuf (d.board env k).apPsk =
        delivered (settled env d.cfg) env.getApPsk "ap_psk" 65 apPskDefault := by
  have hread := board_read h.1 d.cfg d.ota
  -- the statements after the reads leave the settings and the buffer
  have hkeep := exec_take env (fun b => (b.nvs, b.apPsk)) h.2
    (by simp [appMain, Board.netStart, Board.otaMarkValidOnBoot]) (Board.reset d.cfg d.ota)
  simp only [Prod.mk.injEq] at hkeep
  obtain ⟨hnvs, hpsk⟩ := hkeep
  unfold Device.board
  rw [hnvs, hpsk]
  exact ⟨hread.settings, hread.writes, hread.apPsk⟩

/-- A boot keeps the settings exactly if its initialiser does not write over one. -/
theorem keepsSettings_iff (h : d.okBoot (.boot env k)) :
    d.KeepsSettings (.boot env k) ↔ d.NoOverwrite (.boot env k) := by
  obtain ⟨hcfg, hwrites, -⟩ := boot_settings h
  simp only [Device.KeepsSettings, Device.NoOverwrite, hcfg]
  constructor
  · rintro ⟨-, hw⟩
    by_cases hs : env.initDefaults.Sets
    · left; exact hw 1 "ap_psk" ((hwrites 1 "ap_psk").2 ⟨hs, rfl, rfl⟩)
    · right; exact hs
  · intro hno
    constructor
    · intro key v hv
      unfold settled
      split
      · rename_i hs
        -- the initialiser wrote, so `ap_psk` had no value
        have hkey : key ≠ "ap_psk" := by
          rintro rfl
          rw [hno.resolve_right (not_not.2 hs)] at hv; cases hv
        rw [Function.update_of_ne hkey]; exact hv
      · exact hv
    · intro n key hw
      -- a write is the initialiser's, to `ap_psk`
      obtain ⟨hs, -, rfl⟩ := (hwrites n key).1 hw
      exact hno.resolve_right (not_not.2 hs)

/-- **One event** without an overwrite: the settings are as they should be. -/
theorem kept_step {e : DevEvent} (h : d.okBoot e) (hno : d.NoOverwrite e) :
    (d.step e).cfg = keptStep d.cfg e := by
  cases e with
  | boot env k =>
    have hcfg : (d.step (.boot env k)).cfg = settled env d.cfg := (boot_settings h).1
    rw [hcfg]
    simp only [settled, keptStep]
    by_cases hs : env.initDefaults.Sets
    · rw [if_pos hs, if_pos ⟨hs, hno.resolve_right (not_not.2 hs)⟩]
    · rw [if_neg hs, if_neg fun h => hs h.1]
  | install => rfl
  | write key val => rfl

/-- **A run** without an overwrite. -/
theorem kept_run (es : List DevEvent) (d : Device) (h : deviceMachine.Along Device.okBoot d es)
    (hno : deviceMachine.Along Device.NoOverwrite d es) :
    (deviceMachine.run d es).cfg = kept d.cfg es := by
  induction es generalizing d with
  | nil => rfl
  | cons e es ih =>
    have hstep := kept_step h.1 hno.1
    have hrest := ih (d.step e) h.2 hno.2
    rw [hstep] at hrest
    exact hrest

/-- **When the settings survive the boots.** -/
theorem settings_kept_iff (cfg : String → Option CString) (es : List DevEvent)
    (h : deviceMachine.Along Device.okBoot (.made cfg) es) :
    (deviceMachine.Along Device.KeepsSettings (.made cfg) es ∧ ReadsLast cfg es) ↔
      deviceMachine.Along Device.NoOverwrite (.made cfg) es := by
  have hiff : deviceMachine.Along Device.KeepsSettings (.made cfg) es ↔
      deviceMachine.Along Device.NoOverwrite (.made cfg) es := by
    rw [Machine.along_iff] at h ⊢
    rw [Machine.along_iff]
    have hone : ∀ pre e post, es = pre ++ e :: post →
        ((deviceMachine.run (.made cfg) pre).KeepsSettings e ↔
          (deviceMachine.run (.made cfg) pre).NoOverwrite e) := by
      intro pre e post hsplit
      cases e with
      | boot env k => exact keepsSettings_iff (h pre _ post hsplit)
      | install => exact Iff.rfl
      | write key val => exact Iff.rfl
    constructor
    · exact fun hk pre e post hsplit => (hone pre e post hsplit).1 (hk pre e post hsplit)
    · exact fun hn pre e post hsplit => (hone pre e post hsplit).2 (hn pre e post hsplit)
  rw [hiff]
  refine ⟨fun hk => hk.1, fun hno => ⟨hno, ?_⟩⟩
  intro pre env k hpre hreads v hv hlen
  obtain ⟨post, rfl⟩ := hpre
  have hok := h.left
  have hnow := hno.left
  obtain ⟨hok₁, hok₂, -⟩ := Machine.along_append.1 hok
  obtain ⟨hno₁, hno₂, -⟩ := Machine.along_append.1 hnow
  set d := deviceMachine.run (.made cfg) pre with hd
  -- what the initialiser leaves is what the settings should be
  have hcfg : settled env d.cfg = kept cfg (pre ++ [.boot env k]) := by
    have hrun := kept_run _ _ hok hnow
    rw [Machine.run_append, ← hd] at hrun
    rw [← (boot_settings hok₂).1]
    exact hrun
  rw [(boot_settings hok₂).2.2, hcfg]
  simp only [delivered, hv]
  exact if_pos ⟨hreads, by omega⟩

/-- The first boot writes the password that is missing. -/
theorem settings_kept_first :
    deviceMachine.Along Device.KeepsSettings (.made fun _ => none) [.boot {} 15] ∧
      ReadsLast (fun _ => none) [.boot {} 15] :=
  (settings_kept_iff _ _ (by decide)).2 (by decide)

/-- A configured password. -/
def harbour : CString := CString.lit "harbour-42"

/-- **The next boot writes over a configured password.** -/
theorem setting_overwritten : ¬ ∀ (cfg : String → Option CString) (es : List DevEvent),
    deviceMachine.Along Device.okBoot (.made cfg) es →
      deviceMachine.Along Device.KeepsSettings (.made cfg) es ∧ ReadsLast cfg es := by
  intro h
  have hkeep := (h (fun _ => none) [.write "ap_psk" (some harbour), .boot {} 15] (by decide)).1
  have hno := (keepsSettings_iff (by decide)).1 hkeep.2.1
  exact absurd hno (by decide)

end Boatdash
