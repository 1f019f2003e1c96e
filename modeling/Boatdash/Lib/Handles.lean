import Mathlib.Data.List.Basic

/-!
# Handles opened, used and closed

A log of what a piece of code did with handles. `after` replays it on the handles that are
open, whoever opened them; `Disciplined` is the rule that the code uses and closes only
what it has opened itself, and has closed all of it at the end.

* `after_disciplined`: a disciplined log leaves the open handles as it found them.
-/

namespace Handles

/-- What is done with a handle. -/
inductive Op (α : Type*)
  | acquire (h : α)
  | use (h : α)
  | release (h : α)
deriving DecidableEq

variable {α : Type*} [DecidableEq α]

/-- The open handles after a log. -/
def after (opened : List α) : List (Op α) → List α
  | [] => opened
  | .acquire h :: l => after (h :: opened) l
  | .use _ :: l => after opened l
  | .release h :: l => after (opened.erase h) l

/-- With `held` opened by the code before it, the log uses and closes only what the code holds,
and holds nothing at its end. -/
def Disciplined (held : List α) : List (Op α) → Prop
  | [] => held = []
  | .acquire h :: l => Disciplined (h :: held) l
  | .use h :: l => h ∈ held ∧ Disciplined held l
  | .release h :: l => h ∈ held ∧ Disciplined (held.erase h) l

instance decDisciplined : ∀ (held : List α) (l : List (Op α)), Decidable (Disciplined held l)
  | held, [] => inferInstanceAs (Decidable (held = []))
  | held, .acquire h :: l => decDisciplined (h :: held) l
  | held, .use _ :: l => @instDecidableAnd _ _ _ (decDisciplined held l)
  | held, .release h :: l => @instDecidableAnd _ _ _ (decDisciplined (held.erase h) l)

/-- **A disciplined log leaves the open handles as it found them.** -/
theorem after_disciplined {l : List (Op α)} {held opened : List α} (h : Disciplined held l) :
    after (held ++ opened) l = opened := by
  induction l generalizing held with
  | nil =>
    have hheld : held = [] := h
    subst hheld; rfl
  | cons op l ih =>
    cases op with
    | acquire x => exact ih h
    | use x => exact ih h.2
    | release x =>
      have herase : (held ++ opened).erase x = held.erase x ++ opened :=
        List.erase_append_left opened h.1
      show after ((held ++ opened).erase x) l = opened
      rw [herase]
      exact ih h.2

end Handles
