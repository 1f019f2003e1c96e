import Mathlib.Tactic.TypeStar

/-!
# Programs with a state and errors

A `Prog` runs on a state and ends in a result or an error; an error leaves the state as it was
when it came up. A state can be `lost`: it is then in every later state of the run.

`wp w m Q E s`: run from `s`, the program `m` ends with `Q` of its result and the state, or with
`E` of its error and the state; with `w` nothing is said of the runs that end in a lost state.

* `wp_bind`: one program after another.
* `wp_mono`: the rule of consequence, with which a program is used by what is known of it.
* `wp_lost`: nothing is to be shown any more once the state is lost.
-/

/-- A program on states `σ` with errors `ε`. A lost state stays so. -/
structure Prog {σ : Type} (lost : σ → Prop) (ε α : Type) where
  exec : σ → Except ε α × σ
  stays : ∀ s, lost s → lost (exec s).2

namespace Prog

variable {σ ε α β : Type} {lost : σ → Prop}

/-- The run of one program after another. -/
def execBind (m : Prog lost ε α) (f : α → Prog lost ε β) (s : σ) : Except ε β × σ :=
  match m.exec s with
  | (.ok a, s') => (f a).exec s'
  | (.error e, s') => (.error e, s')

theorem execBind_stays (m : Prog lost ε α) (f : α → Prog lost ε β) (s : σ) (h : lost s) :
    lost (execBind m f s).2 := by
  have hm := m.stays s h
  unfold execBind
  generalize m.exec s = r at hm ⊢
  match r, hm with
  | (.ok a, s'), hm => exact (f a).stays s' hm
  | (.error e, s'), hm => exact hm

instance : Monad (Prog lost ε) where
  pure a := ⟨fun s => (.ok a, s), fun _ h => h⟩
  bind m f := ⟨execBind m f, execBind_stays m f⟩

/-- Ends with an error. -/
def fail (e : ε) : Prog lost ε α := ⟨fun s => (.error e, s), fun _ h => h⟩

/-- The state. -/
def look : Prog lost ε σ := ⟨fun s => (.ok s, s), fun _ h => h⟩

/-- A change of the state. -/
def update (g : σ → σ) (h : ∀ s, lost s → lost (g s)) : Prog lost ε Unit :=
  ⟨fun s => (.ok (), g s), h⟩

/-- A program with its error as a result. -/
def attempt (m : Prog lost ε α) : Prog lost ε (Except ε α) :=
  ⟨fun s => (.ok (m.exec s).1, (m.exec s).2), m.stays⟩

/-- What holds after a run. -/
def wp (w : Prop) (m : Prog lost ε α) (Q : α → σ → Prop) (E : ε → σ → Prop) (s : σ) : Prop :=
  match m.exec s with
  | (.ok a, s') => ¬ (w ∧ lost s') → Q a s'
  | (.error e, s') => ¬ (w ∧ lost s') → E e s'

variable {w : Prop} {m : Prog lost ε α} {f : α → Prog lost ε β} {Q Q' : α → σ → Prop}
  {E E' : ε → σ → Prop} {s : σ}

theorem wp_pure {a : α} (h : Q a s) : wp w (pure a : Prog lost ε α) Q E s := fun _ => h

theorem wp_fail {e : ε} (h : E e s) : wp w (fail e : Prog lost ε α) Q E s := fun _ => h

theorem wp_look {Q : σ → σ → Prop} (h : Q s s) : wp w (look : Prog lost ε σ) Q E s := fun _ => h

theorem wp_update {Q : Unit → σ → Prop} {g : σ → σ} {hg : ∀ s, lost s → lost (g s)}
    (h : Q () (g s)) : wp w (update g hg : Prog lost ε Unit) Q E s := fun _ => h

/-- A lost state: anything may happen. -/
theorem wp_lost (hw : w) (h : lost s) : wp w m Q E s := by
  have hm := m.stays s h
  unfold wp
  generalize m.exec s = r at hm ⊢
  match r, hm with
  | (.ok a, s'), hm => exact fun hn => absurd ⟨hw, hm⟩ hn
  | (.error e, s'), hm => exact fun hn => absurd ⟨hw, hm⟩ hn

/-- **One program after another.** -/
theorem wp_bind {Q : β → σ → Prop} (h : wp w m (fun a s' => wp w (f a) Q E s') E s) :
    wp w (m >>= f) Q E s := by
  show match execBind m f s with
    | (.ok a, s') => ¬ (w ∧ lost s') → Q a s'
    | (.error e, s') => ¬ (w ∧ lost s') → E e s'
  unfold wp at h
  unfold execBind
  generalize m.exec s = r at h ⊢
  match r, h with
  | (.ok a, s'), h =>
    by_cases hn : w ∧ lost s'
    · exact wp_lost (m := f a) hn.1 hn.2
    · exact h hn
  | (.error e, s'), h => exact h

/-- **Consequence.** -/
theorem wp_mono (h : wp w m Q E s) (hQ : ∀ a s', Q a s' → Q' a s') (hE : ∀ e s', E e s' → E' e s') :
    wp w m Q' E' s := by
  unfold wp at h ⊢
  generalize m.exec s = r at h ⊢
  match r, h with
  | (.ok a, s'), h => exact fun hn => hQ a s' (h hn)
  | (.error e, s'), h => exact fun hn => hE e s' (h hn)

/-- A known program first. -/
theorem wp_then {Q' : β → σ → Prop} (h : wp w m Q E s)
    (hQ : ∀ a s', Q a s' → wp w (f a) Q' E' s') (hE : ∀ e s', E e s' → E' e s') :
    wp w (m >>= f) Q' E' s := wp_bind (wp_mono h hQ hE)

/-- An error that is looked at. -/
theorem wp_attempt {Q : Except ε α → σ → Prop}
    (h : wp w m (fun a s' => Q (.ok a) s') (fun e s' => Q (.error e) s') s) :
    wp w (attempt m) Q E s := by
  show ¬ (w ∧ lost (m.exec s).2) → Q (m.exec s).1 (m.exec s).2
  unfold wp at h
  generalize m.exec s = r at h ⊢
  match r, h with
  | (.ok a, s'), h => exact h
  | (.error e, s'), h => exact h

end Prog
