import Mathlib.Data.List.Basic

/-!
# Lists overwritten from the front

`overlay l d` is the list `l` with its first elements replaced by `d`, `put l p d` with those from
`p` on. Writing into a sequence at a position is to keep what stands before it and go on with the
new elements: `overlay_overlay`, that only the longest of several overwritings counts, and
`put_overlay`, that one goes on where another ends.
-/

namespace Overwrite

variable {α : Type*} {l d e : List α} {n : ℕ}

/-- `d`, and what of `l` is behind it. -/
def overlay (l d : List α) : List α := d ++ l.drop d.length

theorem length_overlay (l d : List α) : (overlay l d).length = max l.length d.length := by
  unfold overlay
  rw [List.length_append, List.length_drop]
  omega

/-- A list overwritten with its own beginning. -/
theorem overlay_take (l : List α) (n : ℕ) : overlay l (l.take n) = l := by
  unfold overlay
  rw [List.length_take]
  rcases Nat.le_total n l.length with h | h
  · rw [Nat.min_eq_left h, List.take_append_drop]
  · rw [Nat.min_eq_right h, List.drop_length, List.append_nil, List.take_of_length_le h]

theorem drop_overlay (h : d.length ≤ n) : (overlay l d).drop n = l.drop n := by
  unfold overlay
  rw [List.drop_append, List.drop_eq_nil_of_le h, List.nil_append, List.drop_drop,
    Nat.add_sub_cancel' h]

theorem take_overlay (h : n ≤ d.length) : (overlay l d).take n = d.take n := by
  unfold overlay
  rw [List.take_append_of_le_length h]

/-- **The longest overwriting counts.** -/
theorem overlay_overlay (h : d.length ≤ e.length) : overlay (overlay l d) e = overlay l e := by
  show e ++ (overlay l d).drop e.length = e ++ l.drop e.length
  rw [drop_overlay h]

/-- Nothing is left. -/
theorem overlay_long (h : l.length ≤ d.length) : overlay l d = d := by
  unfold overlay
  rw [List.drop_eq_nil_of_le h, List.append_nil]

/-- The next element as it was. -/
theorem overlay_next (h : d.length < l.length) :
    overlay l (d ++ [l[d.length]]) = overlay l d := by
  unfold overlay
  rw [List.length_append, List.length_singleton, List.append_assoc, List.drop_eq_getElem_cons h]
  rfl

/-! ## From a position on -/

/-- `l` with the elements from `p` on replaced by those of `d`. -/
def put (l : List α) (p : ℕ) (d : List α) : List α := overlay l (l.take p ++ d)

variable {p : ℕ}

theorem length_put (h : p ≤ l.length) : (put l p d).length = max l.length (p + d.length) := by
  unfold put
  rw [length_overlay, List.length_append, List.length_take, Nat.min_eq_left h]

theorem put_nil (l : List α) (p : ℕ) : put l p [] = l := by
  unfold put
  rw [List.append_nil, overlay_take]

/-- All that is behind `p` is replaced. -/
theorem put_long (h : l.length ≤ p + d.length) (hp : p ≤ l.length) :
    put l p d = l.take p ++ d := by
  refine overlay_long ?_
  rw [List.length_append, List.length_take, Nat.min_eq_left hp]
  exact h

/-- At the end. -/
theorem put_length (l d : List α) : put l l.length d = l ++ d := by
  rw [put_long (Nat.le_add_right ..) (Nat.le_refl _), List.take_length]

/-- What was overlaid goes on. -/
theorem put_overlay (l d e : List α) : put (overlay l d) d.length e = overlay l (d ++ e) := by
  unfold put
  rw [take_overlay (Nat.le_refl _), List.take_length, overlay_overlay]
  rw [List.length_append]
  exact Nat.le_add_right ..

theorem getElem?_put (h : p ≤ l.length) (i : ℕ) :
    (put l p d)[i]? = if p ≤ i ∧ i < p + d.length then d[i - p]? else l[i]? := by
  have hlen : (l.take p).length = p := by rw [List.length_take, Nat.min_eq_left h]
  unfold put overlay
  rw [List.length_append, hlen, List.append_assoc]
  rcases Nat.lt_or_ge i p with hlt | hge
  · rw [List.getElem?_append_left (by omega), List.getElem?_take, if_pos hlt, if_neg (by omega)]
  · rw [List.getElem?_append_right (by omega), hlen]
    by_cases hin : i < p + d.length
    · rw [List.getElem?_append_left (by omega), if_pos ⟨hge, hin⟩]
    · rw [List.getElem?_append_right (by omega), if_neg (by omega), List.getElem?_drop]
      congr 1
      omega

end Overwrite
