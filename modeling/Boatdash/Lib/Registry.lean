import Mathlib.Data.Finset.Card
import Boatdash.Lib.Machine

/-!
# A bounded registry of subscribers

What a table of clients with a broadcast is for, whatever the clients and the
messages are: a set of at most `cap` subscribers. A client joins, a publication is
sent to every subscriber, and those it could not be sent to are dropped.

* `sentTo_eq_published`: from a state where a client is subscribed, and as long as no
  send to it fails, it is sent exactly the publications, the last one even if that
  send fails.
-/

namespace Registry

variable {α μ : Type*} [DecidableEq α]

/-- A client joins, a message is published and lost by some, or nothing happens. -/
inductive Event (α μ : Type*)
  | join (c : α)
  | publish (m : μ) (lost : Finset α)
  | skip

/-- The clients an event loses. -/
def Event.lost : Event α μ → Finset α
  | .publish _ lost => lost
  | _ => ∅

/-- The message an event publishes. -/
def Event.message : Event α μ → Option μ
  | .publish m _ => some m
  | _ => none

def step (cap : ℕ) (R : Finset α) : Event α μ → Finset α
  | .join c => if c ∉ R ∧ R.card < cap then insert c R else R
  | .publish _ lost => R \ lost
  | .skip => R

/-- The registry as a machine; an event shows the clients it sends to. -/
def machine (α μ : Type*) [DecidableEq α] (cap : ℕ) :
    Machine (Finset α) (Event α μ) (Finset α) where
  step := step cap
  out R
    | .publish _ _ => R
    | _ => ∅

/-- The messages published, in order. -/
def published (es : List (Event α μ)) : List μ := es.filterMap Event.message

/-- The messages sent to `c`, in order. -/
def sentTo (c : α) (l : List (Event α μ × Finset α)) : List μ :=
  l.filterMap fun p => if c ∈ p.2 then p.1.message else none

variable {cap : ℕ} {R : Finset α} {c : α}

theorem mem_step {e : Event α μ} (hc : c ∈ R) (he : c ∉ e.lost) : c ∈ step cap R e := by
  cases e with
  | join d =>
    simp only [step]; split
    · exact Finset.mem_insert_of_mem hc
    · exact hc
  | publish m lost => exact Finset.mem_sdiff.2 ⟨hc, he⟩
  | skip => exact hc

/-- A subscriber is sent what an event publishes. -/
theorem sentTo_one (hc : c ∈ R) (e : Event α μ) :
    (if c ∈ (machine α μ cap).out R e then e.message else none) = e.message := by
  cases e with
  | join d => simp [Event.message]
  | publish m lost => exact if_pos hc
  | skip => simp [Event.message]

/-- **Exactly the publications.** -/
theorem sentTo_eq_published : ∀ (es : List (Event α μ)) (R : Finset α), c ∈ R →
    (∀ e ∈ es, c ∉ e.lost) → ∀ e : Event α μ,
      sentTo c ((machine α μ cap).log R (es ++ [e])) = published (es ++ [e]) := by
  intro es
  induction es with
  | nil =>
    intro R hc _ e
    simp [sentTo, published, List.filterMap_cons, sentTo_one hc e]
  | cons f es ih =>
    intro R hc hno e
    have hih := ih (step cap R f) (mem_step hc (hno f List.mem_cons_self))
      (fun g hg => hno g (List.mem_cons_of_mem _ hg)) e
    simp only [sentTo, published, List.cons_append, Machine.log_cons, List.filterMap_cons,
      sentTo_one hc f] at hih ⊢
    rw [← hih]; rfl

end Registry
