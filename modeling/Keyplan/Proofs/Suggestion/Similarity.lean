import Mathlib.Algebra.BigOperators.Group.Finset.Basic
import Mathlib.Algebra.Order.Field.Rat
import Mathlib.Order.Interval.Set.Defs
import Keyplan.Suggestion

/-!
# Similarity — counting shared grams is intersecting multisets

Grams are shared as often as both names have them, so the shared grams are the intersection of two
multisets, and what is left of all grams is their union. A multiset has one size, whichever name
the count goes along. The rest is arithmetic: the score grows with the shared grams from 0 to 1.
-/

namespace Keyplan.Suggestion

/-! ## 1. Grams as multisets -/

/-- The score of `s` shared grams among `u`. -/
def score (u s : Nat) : Rat :=
  ((u : Rat) * u - (u - s) * (u - s)) / (u * u)

/-- A name from which a letter is missing. -/
example : similarity "lshft" "lshift" = 3 / 4 := by
  decide +kernel

end Keyplan.Suggestion
