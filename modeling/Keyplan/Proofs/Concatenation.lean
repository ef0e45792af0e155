import Mathlib.Algebra.GroupWithZero.Nat
import Mathlib.Algebra.Order.Group.Nat
import Mathlib.Data.List.Basic

/-!
# Concatenation — places in lists that are written one after the other

Pieces written one after the other stand behind each other without gaps: piece `r` starts behind
the lengths of the pieces before it, and every place lies in one of the pieces.
-/

namespace Keyplan.Concatenation

variable {α β : Type} {f : α → List β} {xs : List α} {r j i : Nat} {x : α} {b : β}

/-- Where piece `r` starts. -/
def start (f : α → List β) (xs : List α) (r : Nat) : Nat :=
  ((xs.map fun x => (f x).length).take r).sum

theorem start_succ (hx : xs[r]? = some x) : start f xs (r + 1) = start f xs r + (f x).length := by
  have hlength : (xs.map fun x => (f x).length)[r]? = some (f x).length := by
    rw [List.getElem?_map, hx]
    rfl
  rw [start, List.take_add_one, hlength, List.sum_append]
  rfl

theorem length_flatMap_take (f : α → List β) (xs : List α) (r : Nat) :
    ((xs.take r).flatMap f).length = start f xs r := by
  rw [start, List.length_flatMap, List.map_take]

theorem flatMap_eq_split (hx : xs[r]? = some x) :
    xs.flatMap f = (xs.take r).flatMap f ++ f x ++ (xs.drop (r + 1)).flatMap f := by
  obtain ⟨hlt, rfl⟩ := List.getElem?_eq_some_iff.mp hx
  conv_lhs => rw [← List.take_append_drop r xs, List.drop_eq_getElem_cons hlt]
  rw [List.flatMap_append, List.flatMap_cons, List.append_assoc]

theorem getElem?_flatMap (hx : xs[r]? = some x) (hj : j < (f x).length) :
    (xs.flatMap f)[start f xs r + j]? = (f x)[j]? := by
  rw [flatMap_eq_split hx, List.append_assoc, ← length_flatMap_take,
    List.getElem?_append_right (Nat.le_add_right _ _), Nat.add_sub_cancel_left,
    List.getElem?_append_left hj]

theorem exists_of_getElem?_flatMap (h : (xs.flatMap f)[i]? = some b) :
    ∃ r x j, xs[r]? = some x ∧ (f x)[j]? = some b ∧ i = start f xs r + j := by
  induction xs generalizing i with
  | nil => cases h
  | cons x xs ih =>
    rw [List.flatMap_cons] at h
    by_cases hi : i < (f x).length
    · rw [List.getElem?_append_left hi] at h
      exact ⟨0, x, i, rfl, h, (Nat.zero_add i).symm⟩
    · rw [List.getElem?_append_right (Nat.le_of_not_lt hi)] at h
      obtain ⟨r, y, j, hy, hj, hplace⟩ := ih h
      refine ⟨r + 1, y, j, hy, hj, ?_⟩
      have hstart : start f (x :: xs) (r + 1) = (f x).length + start f xs r := rfl
      omega

end Keyplan.Concatenation
