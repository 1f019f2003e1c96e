import Boatdash.Proof.Config

/-!
# The string `config_get_str` leaves

NVS writes a value with its terminator or nothing at all; the default comes by `strncpy`, which
pads a short string and terminates no long one. `getStr_holds_iff`: **the buffer holds the
stored value, or the default cut to what it has room for, exactly when the value is read and
fits or the default is shorter than the buffer.** Every default `app_main` passes is shorter.
-/

namespace Boatdash

variable {cfg : String → Option CString} {r : NvsRes} {key : String} {m : ℕ} {d : CString}

theorem delivered_fits {v : CString} (hk : cfg key = some v) (hv : r.Reads ∧ v.length + 1 ≤ m) :
    delivered cfg r key m d = v := by
  simp only [delivered, hk]
  exact if_pos hv

theorem delivered_default (h : ¬ Fits cfg r key m) : delivered cfg r key m d = d := by
  unfold delivered
  cases hk : cfg key with
  | none => rfl
  | some v => exact if_neg fun hv => h ⟨v, hk, hv⟩

/-- **When the reader leaves the right string.** -/
theorem getStr_holds_iff (r : NvsRes) (key : String) (out : List UInt8) (m : ℕ) (d : CString)
    (n : Nvs) :
    CString.Holds m (delivered n.cfg r key m (d.cut (m - 1))) out
        (configGetStr r key out m d n).1 ↔
      Fits n.cfg r key m ∨ d.length < m := by
  obtain ⟨l, -, -, -, ⟨v, hk, hv, hout⟩ | ⟨hno, hout⟩⟩ := getStr_cases r key out m d n
  · -- the value and its terminator
    have hroom : v.length < m := hv.2
    rw [hout, delivered_fits hk hv]
    exact iff_of_true (CString.holds_store hroom out) (Or.inl ⟨v, hk, hv⟩)
  · -- the default
    have hmiss : ¬ Fits n.cfg r key m := fun ⟨v, hk, hv⟩ => hno v hk hv
    rw [hout, delivered_default hmiss, CString.holds_strncpy out]
    simp only [hmiss, false_or]

/-- **A default that fills the buffer** is left without a terminator. -/
theorem default_unterminated : ¬ ∀ (r : NvsRes) (key : String) (out : List UInt8) (m : ℕ)
    (d : CString) (n : Nvs), 1 ≤ m → m ≤ out.length →
      CString.Holds m (delivered n.cfg r key m (d.cut (m - 1))) out
        (configGetStr r key out m d n).1 := by
  intro h
  have hholds := h {} "ap_psk" (List.replicate 8 0) 8 apPskDefault { cfg := fun _ => none }
    (by decide) (by decide)
  exact absurd hholds.terminated (by decide)

end Boatdash
