import Boatdash.Proof.Apsta

/-!
# The access point's own password

`config_get_str` delivers the stored `ap_psk` whatever its length up to 64 bytes, the driver
refuses fewer than 8, and `strlcpy` keeps at most 63. `ap_protected_iff`: **the access point
starts with the stored or the built-in password exactly when the boot does not read a stored
one of fewer than 8 or of exactly 64 bytes**, and the driver takes the others.
`config_init_defaults` hides such a value by writing over it, unless its own calls fail.
-/

namespace Boatdash

/-- Whenever `esp_wifi_start` is reached, the last access-point configuration before it was
taken by the driver and is `good`. -/
def Guarded (good : ApConfig → Prop) : Option (ApConfig × EspErr) → List WifiCall → Prop
  | _, [] => True
  | _, .setConfigAp c err :: l => Guarded good (some (c, err)) l
  | last, .start _ :: l => (∃ c, last = some (c, espOk) ∧ good c) ∧ Guarded good last l
  | last, _ :: l => Guarded good last l

/-- WPA2 with the complete stored password or the built-in one. -/
def OwnPassword (stored : Option CString) (c : ApConfig) : Prop :=
  c.authmode = .wpa2Psk ∧ (c.password = CString.field 64 apPskDefault ∨
    ∃ v, stored = some v ∧ c.password = CString.field 64 v)

/-- **The access point is started with its own credentials only.** -/
def ApProtected (b : Board) : Prop := Guarded (OwnPassword (b.nvs.cfg "ap_psk")) none b.apsta.calls

/-- The boot reads a stored password that the access point cannot be given. -/
def Unfit (env : BootEnv) (cfg : String → Option CString) : Prop :=
  env.Starts ∧ ¬ env.initDefaults.Sets ∧ env.getApPsk.Reads ∧
    ∃ v, cfg "ap_psk" = some v ∧ (v.length < 8 ∨ v.length = 64)

/-- The driver refuses the configuration whatever is in it. -/
def Denied (env : BootEnv) : Prop := env.Starts ∧ env.wifi.apErr ≠ espOk

variable {env : BootEnv} {cfg : String → Option CString} {ota : Ota}

theorem ofBuf_field_cut (psk : CString) :
    CString.ofBuf (CString.field 64 (psk.cut 63)) = psk.cut 63 :=
  CString.ofBuf_field (by rw [CString.length_cut]; omega)

/-- The password is taken from 8 bytes on. -/
theorem apResult_ok (wifi : WifiEnv) (hap : wifi.apErr = espOk) (psk : CString) :
    apResult wifi psk = espOk ↔ 8 ≤ psk.length := by
  have hlen : (CString.ofBuf (apWith wifi psk).password).length = min 63 psk.length := by
    rw [show (apWith wifi psk).password = CString.field 64 (psk.cut 63) from rfl, ofBuf_field_cut,
      CString.length_cut]
  have hssid : 0 < (CString.ofBuf (apWith wifi psk).ssid).length := by
    show 0 < (CString.ofBuf (apConfig wifi).ssid).length
    simp [apConfig, CString.ofBuf, CString.length, CString.store, CString.ascii]
  unfold apResult
  rw [if_neg (not_not.2 hap)]
  constructor
  · intro h
    by_contra hlt
    -- too short: the driver refuses it
    rw [wifi.driver.short _ rfl (by omega), if_neg Bool.false_ne_true] at h
    exact absurd h (by decide)
  · intro h
    have hmax : (apWith wifi psk).maxConnection = 4 := rfl
    have hch : (apWith wifi psk).channel = 1 := rfl
    rw [wifi.driver.long _ rfl (by omega) (by omega) hssid (by omega) (by omega) (by omega)
      (by omega), if_pos rfl]

theorem apResult_denied (wifi : WifiEnv) (hap : wifi.apErr ≠ espOk) (psk : CString) :
    apResult wifi psk ≠ espOk := by
  unfold apResult
  rw [if_pos hap]
  exact hap

/-- What the calls come to: the driver took the configuration, and it is good. -/
theorem guarded_netStart (wifi : WifiEnv) (psk s k : CString) (good : ApConfig → Prop) :
    Guarded good none (netStartApsta wifi (some psk) (some s) (some k)).calls ↔
      apResult wifi psk = espOk ∧ good (apWith wifi psk) := by
  by_cases hs : s.length = 0
  · rw [netStart_unnamed wifi psk (not_named hs)]
    simp [Guarded, and_comm]
  · rw [netStart_named wifi psk k hs]
    simp [Guarded, and_comm]

/-- A stored password survives `strlcpy` unless it fills the field. -/
theorem ownPassword_iff (wifi : WifiEnv) {v : CString} (hv : v.length ≤ 64) (h8 : 8 ≤ v.length) :
    OwnPassword (some v) (apWith wifi v) ↔ v.length ≠ 64 := by
  have hcut : (v.cut 63).length < 64 := by rw [CString.length_cut]; omega
  constructor
  · rintro ⟨-, hd | ⟨v', hv', hp⟩⟩ h64
    · -- a full field is not the built-in password
      have heq := CString.field_inj hcut (show apPskDefault.length < 64 by decide) hd
      have hlen := congrArg CString.length heq
      rw [CString.length_cut, h64] at hlen
      exact absurd hlen (by decide)
    · cases hv'
      have hroom : v.length < 64 := (CString.field_cut_iff (by decide)).1 hp
      omega
  · intro hne
    refine ⟨rfl, Or.inr ⟨v, rfl, ?_⟩⟩
    show CString.field 64 (v.cut 63) = _
    rw [CString.cut_of_le (by omega)]

theorem ownPassword_default (wifi : WifiEnv) (stored : Option CString) :
    OwnPassword stored (apWith wifi apPskDefault) := by
  refine ⟨rfl, Or.inl ?_⟩
  show CString.field 64 (apPskDefault.cut 63) = _
  rw [CString.cut_of_le (by decide)]

/-- **The password of a boot**: the built-in one, or a stored one that fits the buffer. -/
theorem psk_cases (hstart : env.Starts) (cfg : String → Option CString) :
    let psk := delivered (settled env cfg) env.getApPsk "ap_psk" 65 apPskDefault
    (psk = apPskDefault ∧ ¬ Unfit env cfg) ∨
      ∃ v, settled env cfg "ap_psk" = some v ∧ psk = v ∧ v.length ≤ 64 ∧
        (Unfit env cfg ↔ v.length < 8 ∨ v.length = 64) := by
  by_cases hsets : env.initDefaults.Sets
  · -- the initialiser wrote over whatever was stored
    left
    refine ⟨?_, fun h => h.2.1 hsets⟩
    simp only [delivered, settled, if_pos hsets, Function.update_self]
    split <;> rfl
  · have hcfg : settled env cfg = cfg := if_neg hsets
    rw [hcfg]
    cases hv : cfg "ap_psk" with
    | none =>
      left
      refine ⟨by simp only [delivered, hv], ?_⟩
      rintro ⟨-, -, -, v, hv', -⟩
      rw [hv] at hv'; cases hv'
    | some v =>
      by_cases hread : env.getApPsk.Reads ∧ v.length + 1 ≤ 65
      · right
        refine ⟨v, rfl, ?_, by omega, ?_⟩
        · simp only [delivered, hv]; exact if_pos hread
        · constructor
          · rintro ⟨-, -, -, v', hv', hlen⟩
            rw [hv] at hv'; cases hv'; exact hlen
          · exact fun hlen => ⟨hstart, hsets, hread.1, v, hv, hlen⟩
      · left
        refine ⟨?_, ?_⟩
        · simp only [delivered, hv]; exact if_neg hread
        · rintro ⟨-, -, hr, v', hv', hlen⟩
          rw [hv] at hv'; cases hv'
          exact hread ⟨hr, by omega⟩

/-- **When the access point is started with its own password.** -/
theorem ap_protected_iff (env : BootEnv) (cfg : String → Option CString) (ota : Ota) :
    ApProtected ((Board.reset cfg ota).exec (appMain env)) ↔ ¬ Denied env ∧ ¬ Unfit env cfg := by
  by_cases hstart : env.Starts
  · have hb := board_whole hstart cfg ota
    unfold ApProtected
    rw [hb.apsta, hb.settings, guarded_netStart]
    by_cases hap : env.wifi.apErr = espOk
    swap
    · exact iff_of_false (fun h => apResult_denied _ hap _ h.1) fun h => h.1 ⟨hstart, hap⟩
    have hno : ¬ Denied env := fun h => h.2 hap
    rw [apResult_ok _ hap, and_iff_right hno]
    rcases psk_cases hstart cfg with ⟨hpsk, hfit⟩ | ⟨v, hstored, hpsk, hlen, hunfit⟩
    · rw [hpsk]
      exact iff_of_true ⟨by decide, ownPassword_default _ _⟩ hfit
    · rw [hpsk, hstored, hunfit]
      by_cases h8 : 8 ≤ v.length
      · rw [ownPassword_iff _ hlen h8]; omega
      · exact iff_of_false (fun h => h8 h.1) (by omega)
  · -- the boot ends before any call to the driver
    obtain ⟨halted, hexec⟩ := exec_not_starts hstart cfg ota 15
    have hcalls : ((Board.reset cfg ota).exec (appMain env)).apsta.calls = [] := by
      rw [show appMain env = (appMain env).take 15 from rfl, hexec]; rfl
    rw [ApProtected, hcalls]
    exact iff_of_true trivial ⟨fun h => hstart h.1, fun h => hstart h.1⟩

/-- An empty stored password. -/
def emptyPsk : String → Option CString := fun key => if key = "ap_psk" then some .empty else none

/-- On a boot whose calls all succeed the built-in password is in force. -/
theorem ap_protected_default : ApProtected
    ((Board.reset emptyPsk (Device.made emptyPsk).ota).exec (appMain {})) := by
  have hsets : ({} : BootEnv).initDefaults.Sets := by decide
  have hfit : ¬ Unfit {} emptyPsk := by
    rintro ⟨-, hno, -, -⟩
    exact hno hsets
  exact (ap_protected_iff {} emptyPsk (Device.made emptyPsk).ota).2 ⟨fun h => h.2 rfl, hfit⟩

/-- A boot whose `nvs_set_str` fails. -/
def setFailing : BootEnv := { initDefaults := { setFails := true } }

/-- **An empty stored password that `config_init_defaults` fails to write over**: the driver
refuses the configuration, and the access point is started all the same. -/
theorem ap_unprotected : ¬ ∀ (env : BootEnv) (cfg : String → Option CString) (ota : Ota),
    env.wifi.apErr = espOk → ApProtected ((Board.reset cfg ota).exec (appMain env)) := by
  intro h
  have hprot := h setFailing emptyPsk (Device.made emptyPsk).ota rfl
  have hstart : setFailing.Starts := ⟨rfl, rfl⟩
  have hb := board_whole hstart emptyPsk (Device.made emptyPsk).ota
  -- the boot reads the empty password
  have hkeep : settled setFailing emptyPsk = emptyPsk := if_neg (by decide)
  have hpsk : delivered emptyPsk setFailing.getApPsk "ap_psk" 65 apPskDefault = .empty := rfl
  rw [ApProtected, hb.apsta, hkeep, hpsk, guarded_netStart, apResult_ok _ rfl] at hprot
  exact absurd hprot.1 (by decide)

end Boatdash
