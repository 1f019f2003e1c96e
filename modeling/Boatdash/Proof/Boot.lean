import Boatdash.Proof.Config
import Boatdash.Spec.App

/-!
# What a boot does

`app_main` is read once, in two parts: `board_read` up to the three `config_get_str` calls,
`board_up` up to the mark. `exec_take` carries a part of the board over the statements that
leave it, so a claim about any later point of a boot is one about these two.
-/

namespace Boatdash

variable {env : BootEnv} {cfg : String → Option CString} {ota : Ota}

/-- The two `ESP_ERROR_CHECK`s pass. -/
def BootEnv.Starts (env : BootEnv) : Prop := env.nvsFlashInit = espOk ∧ env.eventLoop = espOk

instance : Decidable env.Starts := inferInstanceAs (Decidable (_ ∧ _))

/-! ## Statements in order -/

theorem exec_append (b : Board) (ss ts : List (Board → Board)) :
    b.exec (ss ++ ts) = (b.exec ss).exec ts := List.foldl_append ..

/-- What every statement keeps, a run of them keeps. -/
theorem exec_keeps {α : Type} (f : Board → α) {ss : List (Board → Board)}
    (h : ∀ s ∈ ss, ∀ b, f (s b) = f b) (b : Board) : f (b.exec ss) = f b := by
  induction ss generalizing b with
  | nil => rfl
  | cons s ss ih =>
    have hrest := ih (fun t ht => h t (List.mem_cons_of_mem s ht))
    show f ((if b.halted then b else s b).exec ss) = f b
    rw [hrest]
    split
    · rfl
    · exact h s List.mem_cons_self b

/-- **Up to a later point**: what the statements from the `j`-th on keep. -/
theorem exec_take {α : Type} (env : BootEnv) (f : Board → α) {j k : ℕ} (hjk : j ≤ k)
    (h : ∀ s ∈ (appMain env).drop j, ∀ b, f (s b) = f b) (b : Board) :
    f (b.exec ((appMain env).take k)) = f (b.exec ((appMain env).take j)) := by
  have hsplit : (appMain env).take k = (appMain env).take j ++ ((appMain env).take k).drop j := by
    conv_lhs => rw [← List.take_append_drop j ((appMain env).take k)]
    rw [List.take_take, min_eq_left hjk]
  rw [hsplit, exec_append]
  refine exec_keeps f (fun s hs => h s ?_) _
  rw [List.drop_take] at hs
  exact List.mem_of_mem_take hs

theorem exec_halted (ss : List (Board → Board)) {b : Board} (h : b.halted = true) :
    b.exec ss = b := by
  induction ss with
  | nil => rfl
  | cons s ss ih => show (if b.halted then b else s b).exec ss = b; rw [if_pos h]; exact ih

/-- A boot that an `ESP_ERROR_CHECK` ends has changed nothing. -/
theorem exec_not_starts (h : ¬ env.Starts) (cfg : String → Option CString) (ota : Ota) (k : ℕ) :
    ∃ halted, (Board.reset cfg ota).exec ((appMain env).take k) =
      { Board.reset cfg ota with halted := halted } := by
  have hchecks : ∃ halted, (Board.reset cfg ota).exec ((appMain env).take 2) =
      { Board.reset cfg ota with halted := halted } ∧ halted = true := by
    refine ⟨true, ?_, rfl⟩
    by_cases hflash : env.nvsFlashInit = espOk
    · have hloop : env.eventLoop ≠ espOk := fun hloop => h ⟨hflash, hloop⟩
      simp [appMain, Board.exec, Board.espErrorCheck, Board.reset, hflash, hloop]
    · simp [appMain, Board.exec, Board.espErrorCheck, Board.reset, hflash]
  obtain ⟨halted, hexec, rfl⟩ := hchecks
  by_cases hk : 2 ≤ k
  · have hsplit : (appMain env).take k =
        (appMain env).take 2 ++ ((appMain env).drop 2).take (k - 2) := by
      conv_lhs => rw [show k = 2 + (k - 2) by omega, List.take_add]
    -- the rest is not run
    rw [hsplit, exec_append, hexec, exec_halted _ rfl]
    exact ⟨true, rfl⟩
  · have hk' : k = 0 ∨ k = 1 := by omega
    rcases hk' with rfl | rfl
    · exact ⟨false, rfl⟩
    · by_cases hflash : env.nvsFlashInit = espOk
      · exact ⟨false, by simp [appMain, Board.exec, Board.espErrorCheck, Board.reset, hflash]⟩
      · exact ⟨true, by simp [appMain, Board.exec, Board.espErrorCheck, Board.reset, hflash]⟩

/-! ## Up to the reads -/

/-- The settings after `config_init_defaults`. -/
def settled (env : BootEnv) (cfg : String → Option CString) : String → Option CString :=
  if env.initDefaults.Sets then Function.update cfg "ap_psk" (some apPskDefault) else cfg

/-- The board after the three reads. -/
structure HasRead (env : BootEnv) (cfg : String → Option CString) (ota : Ota) (b : Board) :
    Prop where
  runs : b.halted = false
  image : b.ota = ota.bootloader
  settings : b.nvs.cfg = settled env cfg
  writes : ∀ h key, .setStr h key true ∈ b.nvs.calls ↔
    env.initDefaults.Sets ∧ h = 1 ∧ key = "ap_psk"
  fs : b.fsMounted = decide (env.fsRegister = espOk)
  apPsk : CString.ofBuf b.apPsk =
    delivered (settled env cfg) env.getApPsk "ap_psk" 65 apPskDefault
  staSsid : CString.ofBuf b.staSsid =
    delivered (settled env cfg) env.getStaSsid "sta_ssid" 33 .empty
  staPsk : CString.ofBuf b.staPsk = delivered (settled env cfg) env.getStaPsk "sta_psk" 65 .empty
  ui : b.ui = {}

theorem board_read (h : env.Starts) (cfg : String → Option CString) (ota : Ota) :
    HasRead env cfg ota ((Board.reset cfg ota).exec ((appMain env).take 8)) := by
  obtain ⟨hflash, hloop⟩ := h
  set n₀ : Nvs := configInitDefaults env.initDefaults { cfg := cfg } with hn₀
  set g₁ := configGetStr env.getApPsk "ap_psk" (zeros 65) 65 apPskDefault n₀ with hg₁
  set g₂ := configGetStr env.getStaSsid "sta_ssid" (zeros 33) 33 .empty g₁.2 with hg₂
  set g₃ := configGetStr env.getStaPsk "sta_psk" (zeros 65) 65 .empty g₂.2 with hg₃
  have hexec : (Board.reset cfg ota).exec ((appMain env).take 8) =
      { nvs := g₃.2, ota := ota.bootloader, fsMounted := decide (env.fsRegister = espOk),
        apPsk := g₁.1, staSsid := g₂.1, staPsk := g₃.1 } := by
    simp only [appMain, List.take_succ_cons, List.take_zero, Board.exec, List.foldl_cons,
      List.foldl_nil, Board.reset, Board.espErrorCheck, Board.uiFsMount, hflash, hloop]
    rfl
  rw [hexec]
  -- each read leaves the settings and adds no write
  have hcfg₀ : n₀.cfg = settled env cfg := initDefaults_cfg env.initDefaults rfl
  obtain ⟨l₁, hr₁, hcfg₁, hl₁, -⟩ :=
    getStr_cases env.getApPsk "ap_psk" (zeros 65) 65 apPskDefault n₀
  obtain ⟨l₂, hr₂, hcfg₂, hl₂, -⟩ :=
    getStr_cases env.getStaSsid "sta_ssid" (zeros 33) 33 .empty g₁.2
  obtain ⟨l₃, hr₃, hcfg₃, hl₃, -⟩ :=
    getStr_cases env.getStaPsk "sta_psk" (zeros 65) 65 .empty g₂.2
  rw [← hg₁] at hcfg₁ hl₁
  rw [← hg₂] at hcfg₂ hl₂
  rw [← hg₃] at hcfg₃ hl₃
  have hno : ∀ l : List NvsCall, (∀ c ∈ l, c.ReadOnly) → ∀ h key, .setStr h key true ∉ l :=
    fun l hl h key hm => hl _ hm
  refine ⟨rfl, rfl, ?_, ?_, rfl, ?_, ?_, ?_, rfl⟩
  · rw [hcfg₃, hcfg₂, hcfg₁, hcfg₀]
  · -- the only write is the initialiser's
    intro h key
    rw [hl₃, hl₂, hl₁]
    simp only [List.mem_append, hno l₁ hr₁, hno l₂ hr₂, hno l₃ hr₃, or_false]
    exact initDefaults_writes env.initDefaults rfl rfl h key
  · rw [← hcfg₀]; exact getStr_value (by decide) _ _ _ _
  · rw [← hcfg₀, ← hcfg₁]; exact getStr_value (by decide) _ _ _ _
  · rw [← hcfg₀, ← hcfg₁, ← hcfg₂]; exact getStr_value (by decide) _ _ _ _

/-! ## Up to the mark -/

/-- With three strings there is nothing to read through `NULL`. -/
theorem nullRead_some (env : WifiEnv) (apPsk staSsid staPsk : CString) :
    (netStartApsta env (some apPsk) (some staSsid) (some staPsk)).nullRead = none := by
  unfold netStartApsta staConfig
  by_cases h : staSsid.length = 0 <;> simp [h]

/-- **The board before the mark.** -/
theorem board_up (h : env.Starts) (cfg : String → Option CString) (ota : Ota) :
    (Board.reset cfg ota).exec ((appMain env).take 13) =
      (let b := (Board.reset cfg ota).exec ((appMain env).take 8)
       { b with
         apsta := netStartApsta env.wifi (some (CString.ofBuf b.apPsk))
           (some (CString.ofBuf b.staSsid)) (some (CString.ofBuf b.staPsk))
         ui := httpUiStart env.httpd {} }) := by
  have hread := board_read h cfg ota
  have hsplit : (appMain env).take 13 =
      (appMain env).take 8 ++ ((appMain env).take 13).drop 8 := rfl
  rw [hsplit, exec_append]
  generalize (Board.reset cfg ota).exec ((appMain env).take 8) = b at hread ⊢
  have hhalt := hread.runs
  have hui := hread.ui
  have hnull := nullRead_some env.wifi (CString.ofBuf b.apPsk) (CString.ofBuf b.staSsid)
    (CString.ofBuf b.staPsk)
  simp only [appMain, Board.exec, List.take_succ_cons, List.take_zero, List.drop_succ_cons,
    List.drop_zero, List.foldl_cons, List.foldl_nil, hhalt, Board.netStart, hnull]
  simp [hui]

/-- The board once every statement but the mark has run. -/
structure HasStarted (env : BootEnv) (cfg : String → Option CString) (b : Board) : Prop where
  settings : b.nvs.cfg = settled env cfg
  fs : b.fsMounted = decide (env.fsRegister = espOk)
  apsta : b.apsta = netStartApsta env.wifi
    (some (delivered (settled env cfg) env.getApPsk "ap_psk" 65 apPskDefault))
    (some (delivered (settled env cfg) env.getStaSsid "sta_ssid" 33 .empty))
    (some (delivered (settled env cfg) env.getStaPsk "sta_psk" 65 .empty))
  ui : b.ui = httpUiStart env.httpd {}

theorem board_started (h : env.Starts) (cfg : String → Option CString) (ota : Ota) {k : ℕ}
    (hk : 13 ≤ k) : HasStarted env cfg ((Board.reset cfg ota).exec ((appMain env).take k)) := by
  have hread := board_read h cfg ota
  have hup := board_up h cfg ota
  -- what the mark and the log line leave
  have hkeep := exec_take env (fun b => (b.nvs, b.fsMounted, b.apsta, b.ui)) hk
    (by simp [appMain, Board.otaMarkValidOnBoot]) (Board.reset cfg ota)
  simp only [Prod.mk.injEq] at hkeep
  obtain ⟨hnvs, hfs, hapsta, hui⟩ := hkeep
  refine ⟨?_, ?_, ?_, ?_⟩
  · rw [hnvs, hup]; exact hread.settings
  · rw [hfs, hup]; exact hread.fs
  · rw [hapsta, hup, ← hread.apPsk, ← hread.staSsid, ← hread.staPsk]
  · rw [hui, hup]

/-- **A whole boot.** -/
theorem board_whole (h : env.Starts) (cfg : String → Option CString) (ota : Ota) :
    HasStarted env cfg ((Board.reset cfg ota).exec (appMain env)) :=
  board_started h cfg ota (show 13 ≤ 15 by decide)

end Boatdash
