/-!
Edit distance: the least number of insertions, deletions and replacements of single elements that
turn one list into another.
-/

namespace Keyplan.EditDistance

variable {α : Type} [DecidableEq α]

/-- The distances of `c :: a` to the initial segments of a list behind its first element, given the
distances `diagonal :: above` of `a` to all of them and the distance `left` before this element. -/
def extend (c : α) (left diagonal : Nat) : List α → List Nat → List Nat
  | d :: ds, up :: above =>
    let here := min (min (left + 1) (up + 1)) (if c = d then diagonal else diagonal + 1)
    here :: extend c here up ds above
  | _, _ => []

/-- The distances to all initial segments of `b` after one more element `c`. -/
def nextRow (b : List α) (row : List Nat) (c : α) : List Nat :=
  match row with
  | [] => []
  | first :: above => (first + 1) :: extend c (first + 1) first b above

/-- The edit distance of two lists. -/
def distance (a b : List α) : Nat :=
  (a.foldl (nextRow b) (List.range (b.length + 1))).getLastD 0

end Keyplan.EditDistance
