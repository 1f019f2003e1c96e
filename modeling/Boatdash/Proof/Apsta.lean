import Boatdash.Proof.Boot

/-!
# The calls of `net_start_apsta`

`netStart_named` and `netStart_unnamed` give the driver calls with and without a network for
the station. For a named network `sta_psk` is read through when it is null, and replaced by
the empty string when it is not (`netStart_null`).
-/

namespace Boatdash

variable {env : WifiEnv} {apPsk : CString} {staSsid staPsk : Option CString}

/-- The access-point configuration for the password `psk`. -/
def apWith (env : WifiEnv) (psk : CString) : ApConfig :=
  { apConfig env with password := CString.field 64 (psk.cut 63) }

/-- The driver's answer to it. -/
def apResult (env : WifiEnv) (psk : CString) : EspErr :=
  if env.apErr ≠ espOk then env.apErr
  else if env.driver.takesAp (apWith env psk) then espOk else espErrWifiPassword

/-- The station's configuration for the network `s`: the password is empty. -/
def staWith (s : CString) : StaConfig where
  ssid := CString.field 32 (s.cut 31)
  password := CString.field 64 .empty
  threshold := .wpa2Psk

/-- `sta_ssid` names a network. -/
def Named (staSsid : Option CString) : Prop := ∃ s, staSsid = some s ∧ s.length ≠ 0

theorem not_named {s : CString} (h : s.length = 0) : ¬ Named (some s) := by
  rintro ⟨s', heq, hs⟩
  cases heq
  exact hs h

/-- A field starts with a zero exactly if its string is empty. -/
theorem field_headD {s : CString} {n : ℕ} : (CString.field n s).headD 0 ≠ 0 ↔ s.length ≠ 0 := by
  obtain ⟨bytes, hnz⟩ := s
  cases bytes with
  | nil => cases n <;> simp [CString.field, CString.length, List.replicate_succ]
  | cons b bs =>
    have hb : b ≠ 0 := hnz b List.mem_cons_self
    simp [CString.field, CString.length, hb]

theorem staWith_on {s : CString} (h : s.length ≠ 0) : (staWith s).on = true := by
  have hcut : (s.cut 31).length ≠ 0 := by rw [CString.length_cut]; omega
  exact decide_eq_true (field_headD.2 hcut)

/-- `st` for a named network. -/
theorem staConfig_named {s k : CString} (h : s.length ≠ 0) :
    staConfig (some s) (some k) = some (staWith s) := by
  have hssid := CString.strlcpy_zeros s (show 0 < 32 by decide)
  have hpsk := CString.strlcpy_zeros CString.empty (show 0 < 64 by decide)
  unfold staConfig
  simp only [if_pos h, Option.isSome_some, if_true, Option.map_some, Option.some.injEq]
  rw [hssid, hpsk]; rfl

theorem staConfig_null {s : CString} (h : s.length ≠ 0) : staConfig (some s) none = none := by
  unfold staConfig; simp [h]

/-- `st` without a network: all zero. -/
theorem staConfig_unnamed (h : ¬ Named staSsid) (staPsk : Option CString) :
    ∃ st, staConfig staSsid staPsk = some st ∧ st.on = false := by
  unfold staConfig
  cases staSsid with
  | none => exact ⟨_, rfl, by decide⟩
  | some s =>
    have hs : ¬ s.length ≠ 0 := fun hs => h ⟨s, rfl, hs⟩
    simp only [if_neg hs]
    exact ⟨_, rfl, by decide⟩

/-- **The calls with a network.** -/
theorem netStart_named (env : WifiEnv) (apPsk k : CString) {s : CString} (h : s.length ≠ 0) :
    netStartApsta env (some apPsk) (some s) (some k) =
      ⟨[.init env.init, .setMode env.setMode, .setConfigAp (apWith env apPsk) (apResult env apPsk),
        .setConfigSta (staWith s) env.staErr, .start env.start, .connect env.connect], none⟩ := by
  have hap := CString.strlcpy_zeros apPsk (show 0 < 64 by decide)
  unfold netStartApsta
  simp only [staConfig_named h, staWith_on h]
  rw [show (apConfig env).password = zeros 64 from rfl, hap]
  rfl

/-- **The calls without one.** -/
theorem netStart_unnamed (env : WifiEnv) (apPsk : CString) (h : ¬ Named staSsid) :
    netStartApsta env (some apPsk) staSsid staPsk =
      ⟨[.init env.init, .setMode env.setMode, .setConfigAp (apWith env apPsk) (apResult env apPsk),
        .start env.start], none⟩ := by
  have hap := CString.strlcpy_zeros apPsk (show 0 < 64 by decide)
  obtain ⟨st, hst, hon⟩ := staConfig_unnamed h staPsk
  unfold netStartApsta
  simp only [hst, hon]
  rw [show (apConfig env).password = zeros 64 from rfl, hap]
  rfl

/-- A null `sta_psk` with a network is read through. -/
theorem netStart_null (env : WifiEnv) (apPsk : CString) {s : CString} (h : s.length ≠ 0) :
    netStartApsta env (some apPsk) (some s) none = ⟨[.init env.init], some .staPsk⟩ := by
  unfold netStartApsta; simp only [staConfig_null h]

end Boatdash
