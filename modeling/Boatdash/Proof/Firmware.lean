import Boatdash.Proof.Apsta
import Boatdash.Proof.Routing

/-!
# Which images are confirmed

`app_main` marks the running image valid at its end whatever came of the steps before: the
mount, the Wi-Fi calls and the registrations are not looked at, and `http_ui_start` only logs.
`confirmed_healthy_iff`: **over any run of updates, boots and resets, an image becomes valid
only on a healthy boot, and a proven image is always kept, exactly when no boot of an
unconfirmed image that gets as far as the mark had a step fail.**
-/

namespace Boatdash

/-- **An image becomes valid only on a healthy boot.** -/
def Device.OnlyHealthy (d : Device) (e : DevEvent) : Prop :=
  ∀ slot, d.ota.state slot ≠ .valid → (d.step e).ota.state slot = .valid →
    ∃ env k, e = .boot env k ∧ (d.board env k).Healthy

/-- A valid image that has run a healthy boot is on the device. -/
def Device.Kept (d : Device) : Prop := ∃ slot, d.ota.state slot = .valid ∧ d.proven slot = true

/-- Every step that brings the systems up succeeds. -/
structure BootEnv.BringsUp (env : BootEnv) : Prop where
  fs : env.fsRegister = espOk
  init : env.wifi.init = espOk
  mode : env.wifi.setMode = espOk
  start : env.wifi.start = espOk
  httpd : env.httpd.start = espOk
  room : ∀ i, env.httpd.room i = true

/-- A boot of an image that is not valid, if it reaches the mark and the mark succeeds, has
brought the systems up. -/
def Device.MarksHealthy (d : Device) : DevEvent → Prop
  | .boot env k => d.ota.bootloader.state d.ota.bootloader.running ≠ .valid → env.Starts →
      14 ≤ k → env.markValid = espOk → env.BringsUp
  | _ => True

variable {d : Device} {env : BootEnv} {k : ℕ}

/-! ## A boot -/

/-- The board is healthy once `http_ui_start` has run exactly if no step failed. -/
theorem healthy_iff (hstart : env.Starts) (hk : 13 ≤ k) :
    (d.board env k).Healthy ↔ env.BringsUp := by
  have hb : HasStarted env d.cfg (d.board env k) := board_started hstart d.cfg d.ota hk
  set psk := delivered (settled env d.cfg) env.getApPsk "ap_psk" 65 apPskDefault with hpsk
  set ssid := delivered (settled env d.cfg) env.getStaSsid "sta_ssid" 33 .empty with hssid
  set pass := delivered (settled env d.cfg) env.getStaPsk "sta_psk" 65 .empty with hpass
  -- which calls were made does not depend on the network's name
  have hcalls : (.init espOk ∈ (d.board env k).apsta.calls ↔ env.wifi.init = espOk) ∧
      (.setMode espOk ∈ (d.board env k).apsta.calls ↔ env.wifi.setMode = espOk) ∧
      (.start espOk ∈ (d.board env k).apsta.calls ↔ env.wifi.start = espOk) := by
    rw [hb.apsta]
    by_cases hs : ssid.length = 0
    · rw [netStart_unnamed _ _ (not_named hs)]
      simp [eq_comm]
    · rw [netStart_named _ _ _ hs]
      simp [eq_comm]
  obtain ⟨hinit, hmode, hst⟩ := hcalls
  constructor
  · intro h
    have hfs : env.fsRegister = espOk := of_decide_eq_true (hb.fs ▸ h.fs)
    obtain ⟨hhttpd, hroom⟩ := (handlers_all_iff env.httpd).1 (hb.ui ▸ h.server)
    exact ⟨hfs, hinit.1 h.init, hmode.1 h.mode, hst.1 h.start, hhttpd, hroom⟩
  · intro h
    have hfs : (d.board env k).fsMounted = true := hb.fs.trans (decide_eq_true h.fs)
    have hserver := (handlers_all_iff env.httpd).2 ⟨h.httpd, h.room⟩
    rw [← hb.ui] at hserver
    exact ⟨hfs, hinit.2 h.init, hmode.2 h.mode, hst.2 h.start, hserver⟩

/-- Before the mark the slots are as the bootloader left them. -/
theorem ota_before (hk : k ≤ 13) : (d.board env k).ota = d.ota.bootloader := by
  have hcheck : ∀ err (b : Board), (b.espErrorCheck err).ota = b.ota := by
    intro err b
    unfold Board.espErrorCheck
    split <;> rfl
  have hkeep : ∀ s ∈ (appMain env).take 13, ∀ b : Board, (s b).ota = b.ota := by
    simp [appMain, hcheck, Board.uiFsMount, Board.netStart]
  have htake : (appMain env).take k = ((appMain env).take 13).take k := by
    rw [List.take_take, min_eq_left hk]
  unfold Device.board
  rw [htake]
  exact exec_keeps Board.ota (fun s hs => hkeep s (List.mem_of_mem_take hs)) _

/-- **The slots after a boot**: marked if the boot reaches the mark, else as the bootloader
left them. -/
theorem ota_boot (d : Device) (env : BootEnv) (k : ℕ) :
    (d.board env k).ota =
      if env.Starts ∧ 14 ≤ k then d.ota.bootloader.markAppValid env.markValid
      else d.ota.bootloader := by
  by_cases hstart : env.Starts
  · by_cases hk : 14 ≤ k
    · rw [if_pos ⟨hstart, hk⟩]
      have hread := board_read hstart d.cfg d.ota
      have hlate := exec_take env Board.ota hk (by simp [appMain]) (Board.reset d.cfg d.ota)
      have hsplit : (appMain env).take 14 =
          (appMain env).take 13 ++ [Board.otaMarkValidOnBoot env.markValid] := rfl
      unfold Device.board
      rw [hlate, hsplit, exec_append, board_up hstart]
      -- the board before the mark still runs, on the image the bootloader chose
      show Board.ota (if Board.halted _ then _ else Board.otaMarkValidOnBoot _ _) = _
      rw [if_neg (by simp [hread.runs])]
      exact congrArg (Ota.markAppValid · env.markValid) hread.image
    · rw [if_neg fun h => hk h.2]; exact ota_before (by omega)
  · rw [if_neg fun h => hstart h.1]
    obtain ⟨halted, hexec⟩ := exec_not_starts hstart d.cfg d.ota k
    unfold Device.board
    rw [hexec]; rfl

/-! ## Marking -/

/-- The bootloader confirms no image and drops no confirmed one. -/
theorem bootloader_valid (o : Ota) (slot : Bool) :
    o.bootloader.state slot = .valid ↔ o.state slot = .valid := by
  have hupdate : ∀ s, o.state o.boot ≠ .valid → s ≠ .valid →
      (Function.update o.state o.boot s slot = .valid ↔ o.state slot = .valid) := by
    intro s hold hnew
    by_cases hslot : slot = o.boot
    · subst hslot; rw [Function.update_self]; exact iff_of_false hnew hold
    · rw [Function.update_of_ne hslot]
  unfold Ota.bootloader
  split <;> rename_i hstate
  · exact hupdate _ (by rw [hstate]; decide) (by decide)
  · exact hupdate _ (by rw [hstate]; decide) (by decide)
  · rfl
  · rfl

/-- **One event** confirms healthy images only, exactly under the condition. -/
theorem onlyHealthy_iff (d : Device) (e : DevEvent) : d.OnlyHealthy e ↔ d.MarksHealthy e := by
  cases e with
  | install =>
    refine iff_of_true (fun slot hno hyes => ?_) trivial
    simp only [Device.step, Ota.install] at hyes
    split at hyes
    · change Function.update d.ota.state (!d.ota.running) .new slot = .valid at hyes
      by_cases hslot : slot = !d.ota.running
      · -- the slot written to holds a new image
        subst hslot; rw [Function.update_self] at hyes; cases hyes
      · rw [Function.update_of_ne hslot] at hyes; exact absurd hyes hno
    · exact absurd hyes hno
  | write key val => exact iff_of_true (fun slot hno hyes => absurd hyes hno) trivial
  | boot env k =>
    have hota : (d.step (.boot env k)).ota = (d.board env k).ota := rfl
    have hboot := ota_boot d env k
    set o := d.ota.bootloader with ho
    constructor
    · intro honly hnew hstart hk hmark
      rw [if_pos ⟨hstart, hk⟩, Ota.markAppValid, if_pos hmark] at hboot
      have hmarked : (d.step (.boot env k)).ota.state o.running = .valid := by
        rw [hota, hboot]; exact Function.update_self ..
      obtain ⟨env', k', he, hh⟩ :=
        honly o.running (fun h => hnew ((bootloader_valid d.ota _).2 h)) hmarked
      cases he
      exact (healthy_iff hstart (by omega)).1 hh
    · intro hcond slot hno hyes
      refine ⟨env, k, rfl, ?_⟩
      have hno' : o.state slot ≠ .valid := fun h => hno ((bootloader_valid d.ota _).1 h)
      rw [hota, hboot] at hyes
      split at hyes
      · rename_i hreach
        unfold Ota.markAppValid at hyes
        split at hyes
        · rename_i hmark
          -- the slot that became valid is the one that runs
          have hslot : slot = o.running := by
            by_contra hne
            exact hno' ((Function.update_of_ne hne ..).symm.trans hyes)
          subst hslot
          exact (healthy_iff hreach.1 (by omega)).2 (hcond hno' hreach.1 hreach.2 hmark)
        · exact absurd hyes hno'
      · exact absurd hyes hno'

/-! ## The image kept -/

/-- The running image is proven and an update waits at most, or it is on trial and the other
one is proven. -/
def Anchored (o : Ota) (proven : Bool → Bool) : Prop :=
  (o.state o.running = .valid ∧ proven o.running = true ∧
      (o.boot = o.running ∨ (o.boot = !o.running ∧ o.state o.boot = .new))) ∨
    (o.state o.running = .pendingVerify ∧ o.boot = o.running ∧
      o.state (!o.running) = .valid ∧ proven (!o.running) = true)

variable {o : Ota} {proven : Bool → Bool}

/-- The bootloader falls back on the proven image. -/
theorem anchored_bootloader (h : Anchored o proven) :
    Anchored o.bootloader proven ∧ o.bootloader.boot = o.bootloader.running := by
  unfold Ota.bootloader
  rcases h with ⟨hval, hprov, hboot | ⟨hboot, hnew⟩⟩ | ⟨hpend, hboot, hval, hprov⟩
  · rw [← hboot] at hval hprov
    rw [hval]
    exact ⟨Or.inl ⟨hval, hprov, Or.inl rfl⟩, rfl⟩
  · -- the update is tried: the image that ran is the other one
    rw [hnew]
    have hother : (!o.boot) = o.running := by rw [hboot, Bool.not_not]
    refine ⟨Or.inr ⟨Function.update_self .., rfl, ?_, ?_⟩, rfl⟩
    · show Function.update o.state o.boot .pendingVerify (!o.boot) = .valid
      rw [Function.update_of_ne (by simp), hother]; exact hval
    · show proven (!o.boot) = true
      rw [hother]; exact hprov
  · -- the trial is over: back to the other image
    rw [hboot, hpend]
    refine ⟨Or.inl ⟨?_, hprov, Or.inl rfl⟩, rfl⟩
    show Function.update o.state o.running .aborted (!o.running) = .valid
    rw [Function.update_of_ne (by simp)]; exact hval

/-- More proven images. -/
theorem anchored_mono {proven' : Bool → Bool} (h : Anchored o proven)
    (hle : ∀ slot, proven slot = true → proven' slot = true) : Anchored o proven' := by
  rcases h with ⟨hval, hprov, hboot⟩ | ⟨hpend, hboot, hval, hprov⟩
  · exact Or.inl ⟨hval, hle _ hprov, hboot⟩
  · exact Or.inr ⟨hpend, hboot, hval, hle _ hprov⟩

/-- **One event** under the condition. -/
theorem anchored_step (h : Anchored d.ota d.proven) {e : DevEvent} (hcond : d.MarksHealthy e) :
    Anchored (d.step e).ota (d.step e).proven := by
  cases e with
  | write key val => exact h
  | install =>
    simp only [Device.step, Ota.install]
    rcases h with ⟨hval, hprov, -⟩ | ⟨hpend, hboot, hval, hprov⟩
    · simp only [if_pos hval]
      refine Or.inl ⟨?_, ?_, Or.inr ⟨rfl, Function.update_self ..⟩⟩
      · show Function.update d.ota.state (!d.ota.running) .new d.ota.running = .valid
        rw [Function.update_of_ne (by simp)]; exact hval
      · show Function.update d.proven (!d.ota.running) false d.ota.running = true
        rw [Function.update_of_ne (by simp)]; exact hprov
    · -- refused during a trial
      have hno : d.ota.state d.ota.running ≠ .valid := by rw [hpend]; decide
      simp only [if_neg hno]
      exact Or.inr ⟨hpend, hboot, hval, hprov⟩
  | boot env k =>
    obtain ⟨hload, hrun⟩ := anchored_bootloader h
    have hboot := ota_boot d env k
    set o := d.ota.bootloader with ho
    have hmono : ∀ slot, d.proven slot = true → (d.step (.boot env k)).proven slot = true := by
      intro slot hslot
      simp only [Device.step]
      split
      · rw [Function.update_apply]; split
        · rfl
        · exact hslot
      · exact hslot
    have hota : (d.step (.boot env k)).ota = (d.board env k).ota := rfl
    rw [hota, hboot]
    split
    · rename_i hreach
      unfold Ota.markAppValid
      split
      · rename_i hmark
        -- the running image is valid now, and proven before or on this boot
        refine Or.inl ⟨Function.update_self .., ?_, Or.inl hrun⟩
        by_cases hval : o.state o.running = .valid
        · rcases hload with ⟨-, hprov, -⟩ | ⟨hpend, -⟩
          · exact hmono _ hprov
          · rw [hpend] at hval; cases hval
        · have hk : 13 ≤ k := by omega
          have hup : env.BringsUp := hcond hval hreach.1 hreach.2 hmark
          have hh : (d.board env k).Healthy := (healthy_iff hreach.1 hk).2 hup
          have hrunning : (d.board env k).ota.running = o.running := by
            rw [hboot, if_pos hreach, Ota.markAppValid]; split <;> rfl
          simp only [Device.step, if_pos hh, hrunning]
          exact Function.update_self ..
      · exact anchored_mono hload hmono
    · exact anchored_mono hload hmono

theorem kept_of_anchored (h : Anchored d.ota d.proven) : d.Kept := by
  rcases h with ⟨hval, hprov, -⟩ | ⟨-, -, hval, hprov⟩
  · exact ⟨_, hval, hprov⟩
  · exact ⟨_, hval, hprov⟩

/-- **When only healthy images are confirmed**, and a proven one is always kept. -/
theorem confirmed_healthy_iff (cfg : String → Option CString) (es : List DevEvent) :
    (deviceMachine.Along Device.OnlyHealthy (.made cfg) es ∧
        ∀ pre, pre <+: es → (deviceMachine.run (.made cfg) pre).Kept) ↔
      deviceMachine.Along Device.MarksHealthy (.made cfg) es := by
  have hiff : deviceMachine.Along Device.OnlyHealthy (.made cfg) es ↔
      deviceMachine.Along Device.MarksHealthy (.made cfg) es := by
    simp only [Machine.along_iff, onlyHealthy_iff]
  rw [hiff]
  refine ⟨fun h => h.1, fun h => ⟨h, ?_⟩⟩
  rintro pre ⟨post, rfl⟩
  have hmade : Anchored (Device.made cfg).ota (Device.made cfg).proven :=
    Or.inl ⟨rfl, rfl, Or.inl rfl⟩
  exact kept_of_anchored (Machine.run_inv (I := fun d => Anchored d.ota d.proven)
    (fun _ _ hI hc => anchored_step hI hc) pre _ hmade h.left)

/-- **An update whose HTTP server does not start is confirmed.** -/
theorem unhealthy_confirmed : ¬ ∀ (cfg : String → Option CString) (es : List DevEvent),
    deviceMachine.Along Device.OnlyHealthy (.made cfg) es := by
  intro h
  have honly := h (fun _ => none) [.install, .boot { httpd := { start := espFail } } 15]
  have hmarks := (onlyHealthy_iff _ _).1 honly.2.1
  have hup := hmarks (by decide) (by decide) (by decide) rfl
  exact absurd hup.httpd (by decide)

end Boatdash
