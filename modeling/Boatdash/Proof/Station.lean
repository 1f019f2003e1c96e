import Boatdash.Proof.Apsta

/-!
# The stored hotspot credentials on their way to the driver

The name loses its 32nd byte to the terminator `strlcpy` writes, and the password is
replaced by the empty string whenever its pointer is not null.
`credentials_delivered_iff`: **the credentials reach the driver exactly when the name has at
most 31 bytes and the password is empty; a null password is safe exactly where the call does
not come to it.**
-/

namespace Boatdash

/-- The driver is given `s` and `k`, each padded with zeros, and connects. -/
def Delivers (s k : CString) (calls : List WifiCall) : Prop :=
  (∃ c err, .setConfigSta c err ∈ calls ∧ c.ssid = CString.field 32 s ∧
    c.password = CString.field 64 k) ∧ ∃ err, .connect err ∈ calls

/-- A null `sta_psk` is not read through, and stands for an empty password. -/
def NullPskSafe (r : ApstaRun) : Prop :=
  r.nullRead ≠ some .staPsk ∧
    ∀ c err, .setConfigSta c err ∈ r.calls → c.password = CString.field 64 .empty

variable {env : BootEnv} {cfg : String → Option CString} {ota : Ota} {s k : CString}

/-- A password field is that of the empty string for the empty string only. -/
theorem field_eq_empty {n : ℕ} (hk : k.length ≤ n)
    (h : CString.field n .empty = CString.field n k) : k = .empty := by
  obtain ⟨bytes, hnz⟩ := k
  cases bytes with
  | nil => rfl
  | cons b bs =>
    have hb : b ≠ 0 := hnz b List.mem_cons_self
    have hn : n ≠ 0 := by simp only [CString.length, List.length_cons] at hk; omega
    have hhead := congrArg (·.headD 0) h
    rw [CString.field_empty] at hhead
    obtain ⟨m, rfl⟩ := Nat.exists_eq_succ_of_ne_zero hn
    simp only [CString.field, List.cons_append, List.headD_cons, List.replicate_succ] at hhead
    exact absurd hhead.symm hb

/-- **The boot path**, for a stored name and password. -/
theorem boot_delivers_iff (hstart : env.Starts) (hssid : env.getStaSsid.Reads)
    (hpsk : env.getStaPsk.Reads) (hs : cfg "sta_ssid" = some s) (h1 : 1 ≤ s.length)
    (h32 : s.length ≤ 32) (hk : (cfg "sta_psk").getD .empty = k) (h64 : k.length ≤ 64) :
    Delivers s k ((Board.reset cfg ota).exec (appMain env)).apsta.calls ↔
      s.length ≤ 31 ∧ k = .empty := by
  have hb : HasStarted env cfg ((Board.reset cfg ota).exec (appMain env)) :=
    board_whole hstart cfg ota
  -- the initialiser writes another key
  have hother : ∀ key, key ≠ "ap_psk" → settled env cfg key = cfg key := by
    intro key hkey
    unfold settled; split
    · exact Function.update_of_ne hkey ..
    · rfl
  have hs' : delivered (settled env cfg) env.getStaSsid "sta_ssid" 33 .empty = s := by
    simp only [delivered, hother "sta_ssid" (by decide), hs]
    exact if_pos ⟨hssid, by omega⟩
  have hk' : delivered (settled env cfg) env.getStaPsk "sta_psk" 65 .empty = k := by
    simp only [delivered, hother "sta_psk" (by decide)]
    cases hv : cfg "sta_psk" with
    | none => rw [hv] at hk; exact hk
    | some v =>
      rw [hv] at hk
      have hvk : v = k := hk
      subst hvk; exact if_pos ⟨hpsk, by omega⟩
  rw [hb.apsta, hs', hk', netStart_named _ _ _ (show s.length ≠ 0 by omega)]
  constructor
  · rintro ⟨⟨c, err, hc, hssid, hpass⟩, -⟩
    obtain ⟨rfl, -⟩ : c = staWith s ∧ err = env.wifi.staErr := by simpa using hc
    refine ⟨?_, field_eq_empty h64 hpass⟩
    -- the name was copied whole, so it left room for the terminator
    have hroom : s.length < 32 := (CString.field_cut_iff (by decide)).1 hssid
    omega
  · rintro ⟨hlen, rfl⟩
    -- an empty password is what the driver is given in any case
    refine ⟨⟨staWith s, _, by simp; rfl, ?_, rfl⟩, _, by simp; rfl⟩
    show CString.field 32 (s.cut 31) = _
    rw [CString.cut_of_le hlen]

/-- **A direct call with a null `sta_psk`.** -/
theorem null_safe_iff (wifi : WifiEnv) (apPsk staSsid : Option CString) :
    NullPskSafe (netStartApsta wifi apPsk staSsid none) ↔ apPsk = none ∨ ¬ Named staSsid := by
  cases apPsk with
  | none =>
    refine iff_of_true ⟨?_, ?_⟩ (Or.inl rfl)
    · show some ApstaArg.apPsk ≠ _; decide
    · intro c err hc
      exact absurd hc (by simp [netStartApsta])
  | some psk =>
    simp only [reduceCtorEq, false_or]
    by_cases hn : Named staSsid
    · refine iff_of_false ?_ (not_not.2 hn)
      obtain ⟨s, rfl, hs⟩ := hn
      rw [netStart_null wifi psk hs]
      exact fun h => h.1 rfl
    · refine iff_of_true ?_ hn
      rw [netStart_unnamed wifi psk hn]
      exact ⟨by simp, by simp⟩

/-- **When the credentials reach the driver.** -/
theorem credentials_delivered_iff (hstart : env.Starts) (hssid : env.getStaSsid.Reads)
    (hpsk : env.getStaPsk.Reads) (hs : cfg "sta_ssid" = some s) (h1 : 1 ≤ s.length)
    (h32 : s.length ≤ 32) (hk : (cfg "sta_psk").getD .empty = k) (h64 : k.length ≤ 64) :
    (Delivers s k ((Board.reset cfg ota).exec (appMain env)).apsta.calls ↔
        s.length ≤ 31 ∧ k = .empty) ∧
      ∀ wifi apPsk staSsid, NullPskSafe (netStartApsta wifi apPsk staSsid none) ↔
        apPsk = none ∨ ¬ Named staSsid :=
  ⟨boot_delivers_iff hstart hssid hpsk hs h1 h32 hk h64, null_safe_iff⟩

/-- A network's name. -/
def marina : CString := CString.lit "Marina"

/-- An open network: only its name is stored. -/
theorem credentials_delivered_open : Delivers marina .empty
    ((Board.reset (fun key => if key = "sta_ssid" then some marina else none)
      (Device.made fun _ => none).ota).exec (appMain {})).apsta.calls :=
  (credentials_delivered_iff (by decide) (by decide) (by decide) rfl (by decide) (by decide) rfl
    (by decide)).1.2 ⟨by decide, rfl⟩

/-- **A protected network's password never arrives.** -/
theorem credentials_lost : ¬ ∀ (env : BootEnv) (cfg : String → Option CString) (ota : Ota)
    (s k : CString), env.Starts → env.getApPsk.Reads → env.getStaSsid.Reads →
      env.getStaPsk.Reads → cfg "sta_ssid" = some s → 1 ≤ s.length → s.length ≤ 32 →
      (cfg "sta_psk").getD .empty = k → k.length ≤ 64 →
      Delivers s k ((Board.reset cfg ota).exec (appMain env)).apsta.calls := by
  intro h
  have hd := h {} (fun key => if key = "sta_ssid" ∨ key = "sta_psk" then some marina else none)
    (Device.made fun _ => none).ota marina marina (by decide) (by decide) (by decide) (by decide)
    rfl (by decide) (by decide) rfl (by decide)
  have hlost := (boot_delivers_iff (by decide) (by decide) (by decide) rfl (by decide) (by decide)
    rfl (by decide)).1 hd
  exact absurd hlost.2 (by decide)

end Boatdash
