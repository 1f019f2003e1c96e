import Boatdash.Spec.Lfs.Boots
import Boatdash.Proof.Lfs.Calls

/-!
# What is saved survives a power loss at any time

`wp_untilFailure`: a call that fails leaves the saved bytes as they were, or as it was to leave them,
wherever it failed. `wp_boot` adds the power loss.

* `boots_last`: **over any number of power losses, at any time, the file holds what was saved last**
  by the calls that replied, or by the one that was cut off.
-/

namespace Boatdash.Lfs

open Prog

variable {c : Config} {v v' : Volume c} {comm own : List UInt32} {saved : List UInt8}
  {s : Contents} {call : Call} {calls : List Call} {replies : List Reply} {max : ℕ} {w : Prop}

/-! ## One boot -/

/-- No call replied. -/
theorem Leaves.none (s : Contents) (calls : List Call) : Leaves max s calls [] s.saved :=
  ⟨List.nil_prefix, .inl rfl⟩

/-- The first call failed. -/
theorem Leaves.broken (h : saved = s.saved ∨ saved = (s.step max call).saved) (calls : List Call) :
    Leaves max s (call :: calls) [] saved := ⟨List.nil_prefix, h⟩

/-- The first call replied. -/
theorem Leaves.cons (h : Leaves max (s.step max call) calls replies saved) :
    Leaves max s (call :: calls) (s.out max call :: replies) saved :=
  ⟨List.cons_prefix_cons.2 ⟨rfl, h.replied⟩, h.kept⟩

/-- What the volume holds after `calls`, of which those with a reply were done. -/
def Left (c : Config) (v : Volume c) (s : Contents) (calls : List Call) (replies : List Reply)
    (v' : Volume c) : Prop :=
  (∃ comm saved, Saved c v' comm saved ∧ Leaves v.lim.fileMax.toNat s calls replies saved) ∧
    Around v v'

/-- The volume is as it was, or the opening of the file failed. -/
theorem Saved.left (h : Saved c v' comm s.saved) (ha : Around v v') (calls : List Call) :
    Left c v s calls [] v' := ⟨⟨comm, s.saved, h, .none s calls⟩, ha⟩

theorem Left.after {v₁ : Volume c} (h : Left c v₁ s calls replies v') (ha : Around v v₁) :
    Left c v s calls replies v' := by
  obtain ⟨⟨comm, saved, hsaved, hleaves⟩, ha'⟩ := h
  rw [ha.lim] at hleaves
  exact ⟨⟨comm, saved, hsaved, hleaves⟩, ha.trans ha'⟩

/-- The reply of the first call is one more. -/
theorem Left.replied (h : Left c v (s.step v.lim.fileMax.toNat call) calls replies v') :
    Left c v s (call :: calls) (s.out v.lim.fileMax.toNat call :: replies) v' := by
  obtain ⟨⟨comm, saved, hsaved, hleaves⟩, ha⟩ := h
  exact ⟨⟨comm, saved, hsaved, hleaves.cons⟩, ha⟩

/-- **Calls until one fails.** -/
theorem wp_untilFailure {E : Stop → Volume c → Prop} (calls : List Call) (v : Volume c)
    (comm own : List UInt32) (s : Contents) (h : Opened c v comm own s)
    (hsized : ∀ call ∈ calls, call.Sized) :
    wp v.env.Bad (untilFailure calls) (Left c v s calls) E v := by
  induction calls generalizing v comm own s with
  | nil => exact wp_pure (h.saved.left (Around.refl v) [])
  | cons call calls ih =>
    have hcall := wp_call_code h call (hsized call (List.mem_cons_self ..))
    refine wp_bind (wp_attempt (wp_mono hcall ?_ ?_))
    · rintro reply v₁ ⟨rfl, ⟨comm₁, own₁, h₁⟩, ha⟩
      have hrest := ih v₁ comm₁ own₁ _ h₁ fun call' hin => hsized call' (List.mem_cons_of_mem _ hin)
      rw [ha.env] at hrest
      refine wp_then hrest ?_ fun e v' he => he
      intro replies v' hleft
      exact wp_pure (hleft.after ha).replied
    · rintro e v' ⟨-, ⟨comm', saved, hsaved, hkept⟩, ha⟩
      exact wp_pure ⟨⟨comm', saved, hsaved, .broken hkept calls⟩, ha⟩

/-- The power loss after them. -/
theorem wp_cutOff {E : Stop → Volume c → Prop} (h : Left c v s calls replies v')
    (junk : UInt32 → ℕ → UInt8) :
    wp w (powerLoss junk) (fun _ => Left c v s calls replies) E v' := by
  obtain ⟨⟨comm, saved, hsaved, hleaves⟩, ha⟩ := h
  refine wp_mono (wp_powerLoss hsaved junk) ?_ fun e v'' he => he
  rintro - v'' ⟨hsaved', ha'⟩
  exact ⟨⟨comm, saved, hsaved', hleaves⟩, ha.trans ha'⟩

/-- **A boot**, from the bytes that are saved. -/
theorem wp_boot {E : Stop → Volume c → Prop} (h : Saved c v comm saved) (boot : Boot)
    (hsized : ∀ call ∈ boot.calls, call.Sized) :
    wp v.env.Bad boot.code (Left c v (.opened saved boot.append boot.trunc) boot.calls) E v := by
  have hrun : wp v.env.Bad
      (do
        mount boot.seed
        fileOpen boot.append boot.trunc
        untilFailure boot.calls)
      (Left c v (.opened saved boot.append boot.trunc) boot.calls)
      (fun _ => Left c v (.opened saved boot.append boot.trunc) boot.calls []) v := by
    have hfail : ∀ e v', Breaks c v saved saved e v' →
        Left c v (.opened saved boot.append boot.trunc) boot.calls [] v' := by
      rintro e v' ⟨-, ⟨comm', b, hsaved, hb⟩, ha⟩
      obtain rfl : b = saved := hb.elim id id
      exact hsaved.left ha boot.calls
    refine wp_then (wp_mount h boot.seed) ?_ hfail
    rintro - v₁ ⟨h₁, ha₁⟩
    refine wp_then (wp_fileOpen h₁ boot.append boot.trunc) ?_ fun e v' he =>
      hfail e v' (he.after ha₁)
    rintro - v₂ ⟨⟨comm₂, own₂, h₂⟩, ha₂⟩
    have ha := ha₁.trans ha₂
    have hcalls := wp_untilFailure (E := fun _ _ => False) boot.calls v₂ comm₂ own₂ _ h₂ hsized
    rw [ha.env] at hcalls
    exact wp_mono hcalls (fun replies v' hleft => hleft.after ha) fun e v' he => he.elim
  refine wp_bind (wp_attempt (wp_mono hrun ?_ ?_))
  · intro replies v' hleft
    exact wp_then (wp_cutOff hleft boot.junk) (fun _ v'' hleft' => wp_pure hleft')
      fun e v'' he => he
  · intro e v' hleft
    exact wp_then (wp_cutOff hleft boot.junk) (fun _ v'' hleft' => wp_pure hleft')
      fun e v'' he => he

/-! ## Any number of boots -/

theorem wp_runBoots {E : Stop → Volume c → Prop} (boots : List Boot) (v : Volume c)
    (comm : List UInt32) (saved : List UInt8) (h : Saved c v comm saved)
    (hsized : ∀ boot ∈ boots, ∀ call ∈ boot.calls, call.Sized) :
    wp v.env.Bad (runBoots boots)
      (fun replies v' => (∃ comm' saved', Saved c v' comm' saved' ∧
        Lasts v.lim.fileMax.toNat boots replies saved saved') ∧ Around v v')
      E v := by
  induction boots generalizing v comm saved with
  | nil => exact wp_pure ⟨⟨comm, saved, h, .nil saved⟩, Around.refl v⟩
  | cons boot boots ih =>
    refine wp_then (wp_boot h boot (hsized boot (List.mem_cons_self ..))) ?_ fun e v' he => he
    rintro replies v₁ ⟨⟨comm₁, saved₁, h₁, hleaves⟩, ha⟩
    have hrest := ih v₁ comm₁ saved₁ h₁ fun boot' hin => hsized boot' (List.mem_cons_of_mem _ hin)
    rw [ha.env, ha.lim] at hrest
    refine wp_then hrest ?_ fun e v' he => he
    rintro rest v' ⟨⟨comm', saved', hsaved, hlasts⟩, ha'⟩
    exact wp_pure ⟨⟨comm', saved', hsaved, .cons hleaves hlasts⟩, ha.trans ha'⟩

/-- What is saved is read back. -/
theorem wp_readBack (h : Saved c v comm saved) (seed n : UInt32) :
    wp v.env.Bad (readBack seed n) (fun data v' => data = saved.take n.toNat ∧ Around v v')
      (Breaks c v saved saved) v := by
  refine wp_then (wp_mount h seed) ?_ fun e v' he => he
  rintro - v₁ ⟨h₁, ha₁⟩
  refine wp_then (wp_fileOpen h₁ false false) ?_ fun e v' he => he.after ha₁
  rintro - v₂ ⟨⟨comm₂, own₂, h₂⟩, ha₂⟩
  have ha := ha₁.trans ha₂
  have hread := wp_fileRead (n := n) h₂
  rw [ha.env] at hread
  refine wp_mono hread ?_ fun e v' he => (he.breaks h₂.saved).after ha
  rintro data v' ⟨hdata, hleads⟩
  exact ⟨hdata, ha.trans hleads.2.around⟩

/-- **What is saved lasts**, over any number of power losses at any time: what is read in the end was
saved by the calls that replied, or by one that was cut off, and other files are as they were. If it
cannot be read, then with the error of the last call of the device, which is no bad block, or with
`LFS_ERR_NOSPC` when no block is left for the directories. On a device with a bad block this is so as
long as the volume is not lost. -/
theorem boots_last (h : Saved c v comm saved) (boots : List Boot) (seed n : UInt32)
    (hsized : ∀ boot ∈ boots, ∀ call ∈ boot.calls, call.Sized) :
    wp v.env.Bad
      (do
        let replies ← runBoots boots
        let data ← readBack seed n
        return (replies, data))
      (fun r v' =>
        (∃ saved', Lasts v.lim.fileMax.toNat boots r.1 saved saved' ∧ r.2 = saved'.take n.toNat) ∧
          Around v v')
      (fun e v' => v'.Failed e) v := by
  refine wp_then (wp_runBoots boots v comm saved h hsized) ?_ fun e v' he => he
  rintro replies v₁ ⟨⟨comm₁, saved₁, h₁, hlasts⟩, ha⟩
  have hread := wp_readBack h₁ seed n
  rw [ha.env] at hread
  refine wp_then hread ?_ fun e v' he => he.1
  rintro data v' ⟨hdata, ha'⟩
  exact wp_pure ⟨⟨saved₁, hlasts, hdata⟩, ha.trans ha'⟩

/-- The power goes in the second sync. -/
def secondSync : Boot :=
  ⟨5, false, false, [.write [7, 8], .sync, .write [9], .sync], fun _ _ => 1⟩

/-- A device that fails in the second sync, when the blocks of the directory are written. What it
commits is there then, if it `landed`. -/
def cutEnv (landed : Bool) : Env where
  result := fun op i => match op, i with
    | .dir, 4 => -5
    | _, _ => 0
  junk := fun _ _ => 0
  cached := fun _ _ => true
  steps := fun i => if i = 4 then .write 0 (fun _ => 1) :: if landed then [.land] else [] else []

/-- The boot, and the file read after it. -/
def syncRun : Code tenBlocks (List (List Reply) × List UInt8) := do
  let replies ← runBoots [secondSync]
  let data ← readBack 3 9
  return (replies, data)

/-- The third byte is there, though the sync did not reply; if it had not landed it would not be. -/
theorem boots_last_sync :
    wp (tenVolume (cutEnv true)).env.Bad syncRun
      (fun r _ => r.1 = [[.code 2, .code 0, .code 1]] → r.2 = [7, 8] ∨ r.2 = [7, 8, 9])
      (fun e v' => v'.Failed e) (tenVolume (cutEnv true)) ∧
    (syncRun.exec (tenVolume (cutEnv true))).1 = .ok ([[.code 2, .code 0, .code 1]], [7, 8, 9]) ∧
    (syncRun.exec (tenVolume (cutEnv false))).1 = .ok ([[.code 2, .code 0, .code 1]], [7, 8]) := by
  refine ⟨?_, by rfl, by rfl⟩
  have hrun := boots_last (tenVolume_mounted (cutEnv true)).toSaved [secondSync] 3 9
    (by simp [secondSync, Call.Sized])
  have hmax : (tenVolume (cutEnv true)).lim.fileMax.toNat = 0x7fffffff := rfl
  rw [hmax] at hrun
  -- the volume is not to be computed
  generalize tenVolume (cutEnv true) = v at hrun ⊢
  refine wp_mono hrun ?_ fun e v' he => he
  rintro ⟨replies, data⟩ v' ⟨⟨saved', hlasts, hdata⟩, -⟩ hreplies
  obtain rfl : replies = [[.code 2, .code 0, .code 1]] := hreplies
  have hdata : data = saved'.take 9 := hdata
  cases hlasts with
  | cons first others =>
    cases others
    rcases first.kept with hkept | hkept
    · exact .inl (by rw [hdata, hkept]; decide)
    · exact .inr (by rw [hdata, hkept]; decide)

end Boatdash.Lfs
