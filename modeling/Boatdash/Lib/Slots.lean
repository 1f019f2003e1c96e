import Mathlib.Data.Fintype.Basic
import Mathlib.Data.Finset.Card
import Mathlib.Data.Fintype.EquivFin
import Mathlib.Data.List.FinRange

/-!
# Slot tables

A table of `n` slots over a type with a mark `z` for a free slot. `members` is
the set it stands for; `Distinct` says that no member fills two slots.

* `members_update_free`, `members_update_clear`: filling a free slot adds a
  member, clearing a slot removes the one it held.
* `card_lt_iff`: a table without repetitions has a free slot exactly when it has
  fewer than `n` members.
* `eq_of_full`: a full one whose members lie in a set of at most `n` elements
  holds all of them.
* `foldl_slotwise`: a loop over the slots whose body at `i` only touches slot `i`.
-/

namespace Slots

open Finset

variable {n : ℕ} {α β : Type*} {z : α} {t : Fin n → α}

/-- No member fills two slots. -/
def Distinct (z : α) (t : Fin n → α) : Prop := ∀ i j, t i ≠ z → t i = t j → i = j

theorem distinct_empty : Distinct z (fun _ : Fin n => z) := fun _ _ h => absurd rfl h

/-- Clearing some slots keeps a table distinct. -/
theorem distinct_of_sub (hD : Distinct z t) {u : Fin n → α} (h : ∀ i, u i = t i ∨ u i = z) :
    Distinct z u := by
  intro i j hi hij
  have h1 := (h i).resolve_right hi
  have h2 := (h j).resolve_right (hij ▸ hi)
  exact hD i j (h1 ▸ hi) (by rw [← h1, ← h2, hij])

/-! ## Loops over the slots -/

/-- The body of a loop over the slots: at `i` it rewrites slot `i` and emits a list. -/
def slotwise (f : Fin n → α → α) (g : Fin n → α → List β) (acc : (Fin n → α) × List β)
    (i : Fin n) : (Fin n → α) × List β :=
  (Function.update acc.1 i (f i (acc.1 i)), acc.2 ++ g i (acc.1 i))

/-- Over any slots without repetitions, each visited slot is rewritten once, from the
value it had before the loop. -/
theorem foldl_slotwise_list (f : Fin n → α → α) (g : Fin n → α → List β) :
    ∀ (l : List (Fin n)), l.Nodup → ∀ (t : Fin n → α) (out : List β),
      l.foldl (slotwise f g) (t, out) =
        (fun i => if i ∈ l then f i (t i) else t i, out ++ l.flatMap fun i => g i (t i)) := by
  intro l
  induction l with
  | nil => intro _ t out; simp
  | cons i l ih =>
    intro hnd t out
    obtain ⟨hi, hl⟩ := List.nodup_cons.1 hnd
    rw [List.foldl_cons, slotwise, ih hl]
    refine Prod.ext ?_ ?_
    · funext j
      by_cases hji : j = i
      · subst hji; simp [hi]
      · simp [hji]
    · have hg : (l.flatMap fun j => g j (Function.update t i (f i (t i)) j)) =
          l.flatMap fun j => g j (t j) := by
        apply List.flatMap_congr
        intro j hj
        have hji : j ≠ i := by rintro rfl; exact hi hj
        rw [Function.update_of_ne hji]
      simp [hg]

theorem foldl_slotwise (f : Fin n → α → α) (g : Fin n → α → List β) (t : Fin n → α)
    (out : List β) : (List.finRange n).foldl (slotwise f g) (t, out) =
      (fun i => f i (t i), out ++ (List.finRange n).flatMap fun i => g i (t i)) := by
  rw [foldl_slotwise_list f g _ (List.nodup_finRange n)]; simp

/-! ## The set of members -/

variable [DecidableEq α]

/-- The set a table stands for. -/
def members (z : α) (t : Fin n → α) : Finset α := (univ.image t).erase z

/-- The first free slot. -/
def firstFree (z : α) (t : Fin n → α) : Option (Fin n) := (List.finRange n).find? fun i => t i = z

/-- Put `x` in the first free slot, if there is one. -/
def put (z : α) (t : Fin n → α) (x : α) : Fin n → α :=
  match firstFree z t with
  | some i => Function.update t i x
  | none => t

@[simp] theorem mem_members {x : α} : x ∈ members z t ↔ x ≠ z ∧ ∃ i, t i = x := by
  simp [members]

theorem mem_members_slot {i : Fin n} (h : t i ≠ z) : t i ∈ members z t :=
  mem_members.2 ⟨h, i, rfl⟩

theorem members_empty : members z (fun _ : Fin n => z) = ∅ := by
  ext x; simp only [mem_members, notMem_empty, iff_false, not_and, not_exists]
  exact fun hx _ h => hx h.symm

/-! ## Free slots -/

theorem firstFree_free {i : Fin n} (h : firstFree z t = some i) : t i = z := by
  simpa using List.find?_some h

theorem firstFree_none : firstFree z t = none ↔ ¬ ∃ i, t i = z := by
  simp [firstFree, List.find?_eq_none]

theorem put_full (h : ¬ ∃ i, t i = z) (x : α) : put z t x = t := by
  simp [put, firstFree_none.2 h]

/-- A table with a free slot: `put` fills one of them. -/
theorem put_free (h : ∃ i, t i = z) (x : α) :
    ∃ i, t i = z ∧ put z t x = Function.update t i x := by
  cases hf : firstFree z t with
  | none => exact absurd h (firstFree_none.1 hf)
  | some i => exact ⟨i, firstFree_free hf, by simp [put, hf]⟩

/-! ## Filling and clearing one slot -/

theorem members_update_free {i : Fin n} {x : α} (hi : t i = z) (hx : x ≠ z) :
    members z (Function.update t i x) = insert x (members z t) := by
  ext y
  simp only [mem_members, mem_insert]
  constructor
  · rintro ⟨hy, j, hj⟩
    by_cases hij : j = i
    · subst hij; left; simpa using hj.symm
    · right; exact ⟨hy, j, by simpa [hij] using hj⟩
  · rintro (rfl | ⟨hy, j, hj⟩)
    · exact ⟨hx, i, by simp⟩
    · have hij : j ≠ i := by rintro rfl; exact hy (hj.symm.trans hi)
      exact ⟨hy, j, by simpa [hij] using hj⟩

theorem distinct_update_free (hD : Distinct z t) {i : Fin n} {x : α} (hx : x ∉ members z t) :
    Distinct z (Function.update t i x) := by
  intro j k hj hjk
  -- two members that are equal: neither can be the new one unless both are
  by_cases h1 : j = i <;> by_cases h2 : k = i
  · rw [h1, h2]
  · subst h1
    simp only [Function.update_self, Function.update_of_ne h2, ne_eq] at hj hjk
    exact absurd (mem_members.2 ⟨hj, k, hjk.symm⟩) hx
  · subst h2
    simp only [Function.update_self, Function.update_of_ne h1, ne_eq] at hj hjk
    exact absurd (mem_members.2 ⟨hjk ▸ hj, j, hjk⟩) hx
  · simp only [Function.update_of_ne h1, Function.update_of_ne h2, ne_eq] at hj hjk
    exact hD j k hj hjk

theorem members_update_clear (hD : Distinct z t) (i : Fin n) :
    members z (Function.update t i z) = (members z t).erase (t i) := by
  ext y
  simp only [mem_members, mem_erase]
  constructor
  · rintro ⟨hy, j, hj⟩
    have hij : j ≠ i := by rintro rfl; simp at hj; exact hy hj.symm
    rw [Function.update_of_ne hij] at hj
    refine ⟨?_, hy, j, hj⟩
    rintro rfl
    exact hij (hD j i (hj ▸ hy) hj)
  · rintro ⟨hyi, hy, j, hj⟩
    have hij : j ≠ i := by rintro rfl; exact hyi hj.symm
    exact ⟨hy, j, by simpa [hij] using hj⟩

theorem members_sub {u : Fin n → α} (h : ∀ i, u i = t i ∨ u i = z) : members z u ⊆ members z t := by
  intro y hy
  obtain ⟨hy, j, hj⟩ := mem_members.1 hy
  exact mem_members.2 ⟨hy, j, by rw [← hj]; exact ((h j).resolve_right (hj ▸ hy)).symm⟩

/-! ## Adding a member -/

theorem members_put {x : α} (hx : x ≠ z) (hf : ∃ i, t i = z) :
    members z (put z t x) = insert x (members z t) := by
  obtain ⟨i, hi, h⟩ := put_free hf x
  rw [h, members_update_free hi hx]

theorem distinct_put (hD : Distinct z t) {x : α} (hx : x ∉ members z t) :
    Distinct z (put z t x) := by
  by_cases hf : ∃ i, t i = z
  · obtain ⟨i, -, h⟩ := put_free hf x
    rw [h]; exact distinct_update_free hD hx
  · rw [put_full hf]; exact hD

/-! ## Counting -/

theorem card_members (hD : Distinct z t) :
    (members z t).card = (univ.filter fun i => t i ≠ z).card := by
  have h : members z t = (univ.filter fun i => t i ≠ z).image t := by
    ext y
    simp only [mem_members, mem_image, mem_filter, mem_univ, true_and]
    constructor
    · rintro ⟨hy, i, rfl⟩; exact ⟨i, hy, rfl⟩
    · rintro ⟨i, hi, rfl⟩; exact ⟨hi, i, rfl⟩
  rw [h, card_image_of_injOn]
  intro i hi j _ hij
  exact hD i j (by simpa using hi) hij

/-- **A free slot exactly below `n` members.** -/
theorem card_lt_iff (hD : Distinct z t) : (members z t).card < n ↔ ∃ i, t i = z := by
  rw [card_members hD]
  constructor
  · intro h
    by_contra hf
    push Not at hf
    rw [filter_true_of_mem (fun i _ => hf i), card_univ, Fintype.card_fin] at h
    exact lt_irrefl n h
  · rintro ⟨i, hi⟩
    calc (univ.filter fun i => t i ≠ z).card < (univ : Finset (Fin n)).card :=
          card_lt_card (filter_ssubset.2 ⟨i, mem_univ i, by simpa using hi⟩)
      _ = n := by simp

/-- **Pigeonhole.** A full table without repetitions, inside a set of at most `n`
elements, holds the whole set. -/
theorem eq_of_full (hD : Distinct z t) (hfull : ¬ ∃ i, t i = z) {B : Finset α}
    (hB : members z t ⊆ B) (hcard : B.card ≤ n) : members z t = B := by
  apply eq_of_subset_of_card_le hB
  -- no free slot, so not fewer than `n` members
  have hn : ¬ (members z t).card < n := mt (card_lt_iff hD).1 hfull
  omega

end Slots
