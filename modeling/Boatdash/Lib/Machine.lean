import Mathlib.Tactic.TypeStar
import Mathlib.Tactic.Basic

/-!
# Machines and their runs

A machine says what an event does to a state and what the event shows outside.
A run is a list of events; `Along ok` says that each of its events meets `ok` in the
state where it happens. It serves for what a run is allowed to do, for a condition on
its steps and for a property of its steps alike.

* `run_inv`: an invariant kept by every event that meets `ok` holds at the end of a run
  along `ok`.
* `Along.mono_inv`: under an invariant, one condition on the steps gives another.
* `run_sim`: a relation to an abstract machine, fed with the events and what they
  showed, is kept along a run.
* `along_iff`: a condition on the steps of a run, read at every split of it.
* `split_last`: where an event of a run with one more event stands.
-/

/-- A machine: what an event does to a state, and what it shows outside. -/
structure Machine (S E O : Type*) where
  step : S → E → S
  out : S → E → O

namespace Machine

variable {S E O T P : Type*} (m : Machine S E O)

/-- The state after the events `es`. -/
def run (s : S) : List E → S
  | [] => s
  | e :: es => run (m.step s e) es

/-- The events of a run, each with what it showed. -/
def log (s : S) : List E → List (E × O)
  | [] => []
  | e :: es => (e, m.out s e) :: log (m.step s e) es

/-- Every event of the run meets `ok` in the state where it happens. -/
def Along (ok : S → E → Prop) (s : S) : List E → Prop
  | [] => True
  | e :: es => ok s e ∧ Along ok (m.step s e) es

instance decAlong {ok : S → E → Prop} [∀ s e, Decidable (ok s e)] :
    ∀ (s : S) (es : List E), Decidable (m.Along ok s es)
  | _, [] => isTrue trivial
  | s, e :: es => @instDecidableAnd _ _ _ (decAlong (m.step s e) es)

@[simp] theorem run_nil (s : S) : m.run s [] = s := rfl

@[simp] theorem run_cons (s : S) (e : E) (es : List E) :
    m.run s (e :: es) = m.run (m.step s e) es := rfl

@[simp] theorem log_nil (s : S) : m.log s [] = [] := rfl

@[simp] theorem log_cons (s : S) (e : E) (es : List E) :
    m.log s (e :: es) = (e, m.out s e) :: m.log (m.step s e) es := rfl

@[simp] theorem run_append (s : S) (es fs : List E) :
    m.run s (es ++ fs) = m.run (m.run s es) fs := by
  induction es generalizing s with
  | nil => rfl
  | cons e es ih => exact ih _

@[simp] theorem log_append (s : S) (es fs : List E) :
    m.log s (es ++ fs) = m.log s es ++ m.log (m.run s es) fs := by
  induction es generalizing s with
  | nil => rfl
  | cons e es ih => simp [ih]

variable {ok ok' : S → E → Prop} {m}

theorem along_append {s : S} {es fs : List E} :
    m.Along ok s (es ++ fs) ↔ m.Along ok s es ∧ m.Along ok (m.run s es) fs := by
  induction es generalizing s with
  | nil => simp [Along]
  | cons e es ih => simp [Along, ih, and_assoc]

/-- **A condition along a run, read at every split.** -/
theorem along_iff {s : S} {es : List E} :
    m.Along ok s es ↔ ∀ pre e post, es = pre ++ e :: post → ok (m.run s pre) e := by
  constructor
  · rintro h pre e post rfl
    exact (along_append.1 h).2.1
  · induction es generalizing s with
    | nil => intro _; trivial
    | cons e es ih =>
      intro h
      refine ⟨h [] e es rfl, ih ?_⟩
      rintro pre f post rfl
      exact h (e :: pre) f post rfl

/-- Where an event of a run with one more event at its end stands. -/
theorem split_last {l a b : List E} {x y : E} (h : l ++ [x] = a ++ y :: b) :
    (a = l ∧ y = x) ∨ ∃ b', l = a ++ y :: b' := by
  rcases List.eq_nil_or_concat b with rfl | ⟨b', z, rfl⟩
  · obtain ⟨hl, hx⟩ := List.append_inj' h rfl
    exact Or.inl ⟨hl.symm, (List.singleton_inj.1 hx).symm⟩
  · have h' : l ++ [x] = (a ++ y :: b') ++ [z] := by rw [h]; simp
    exact Or.inr ⟨b', (List.append_inj' h' rfl).1⟩

theorem Along.left {s : S} {es fs : List E} (h : m.Along ok s (es ++ fs)) : m.Along ok s es :=
  (along_append.1 h).1

/-- **Invariant rule.** What every event that meets `ok` keeps holds after a run along `ok`. -/
theorem run_inv {I : S → Prop} (hstep : ∀ s e, I s → ok s e → I (m.step s e)) :
    ∀ (es : List E) (s : S), I s → m.Along ok s es → I (m.run s es) := by
  intro es
  induction es with
  | nil => intro s hs _; exact hs
  | cons e es ih => intro s hs h; exact ih _ (hstep s e hs h.1) h.2

/-- **Consequence rule.** A run along `ok` is along what `ok` gives under an invariant. -/
theorem Along.mono_inv {I : S → Prop} (hstep : ∀ s e, I s → ok s e → I (m.step s e))
    (himp : ∀ s e, I s → ok s e → ok' s e) :
    ∀ {es : List E} {s : S}, I s → m.Along ok s es → m.Along ok' s es := by
  intro es
  induction es with
  | nil => intro s _ _; trivial
  | cons e es ih => intro s hs h; exact ⟨himp s e hs h.1, ih (hstep s e hs h.1) h.2⟩

/-- **Simulation rule.** The abstract machine reads each event with what it showed. -/
theorem run_sim {a : Machine T (E × O) P} {R : S → T → Prop}
    (hstep : ∀ s t e, R s t → ok s e → R (m.step s e) (a.step t (e, m.out s e))) :
    ∀ (es : List E) (s : S) (t : T), R s t → m.Along ok s es →
      R (m.run s es) (a.run t (m.log s es)) := by
  intro es
  induction es with
  | nil => intro s t h _; exact h
  | cons e es ih => intro s t h hl; exact ih _ _ (hstep s t e h hl.1) hl.2

end Machine
