import Keyplan.Decimal.Binary
import Keyplan.Suggestion.EditDistance
import Keyplan.Text.LowerCase

/-!
Suggesting known names for an unknown one. Both names are lowered, padded with two blanks on each
side and cut into overlapping three-character grams. With `s` shared grams among `u` grams in all,
counted with repetition, their similarity is `(u² - (u - s)²) / u²`, which favours names that share
most of their grams over names that share a few. Similarities and the threshold they have to reach
are compared as double-precision numbers, so two that round alike count as equal.
-/

namespace Keyplan.Suggestion

/-- The overlapping three-character pieces of a list. -/
def triples : List Char → List (Char × Char × Char)
  | a :: b :: c :: rest => (a, b, c) :: triples (b :: c :: rest)
  | _ => []

def grams (s : String) : List (Char × Char × Char) :=
  triples ([' ', ' '] ++ lowerCase s ++ [' ', ' '])

/-- How many elements two lists share, each as often as both hold it. -/
def sharedCount {α : Type} [DecidableEq α] : List α → List α → Nat
  | [], _ => 0
  | a :: as, bs => if a ∈ bs then sharedCount as (bs.erase a) + 1 else sharedCount as bs

def shared (a b : String) : Nat :=
  sharedCount (grams a) (grams b)

/-- All grams of two names, the shared ones counted once. -/
def union (a b : String) : Nat :=
  (grams a).length + (grams b).length - shared a b

/-- The similarity of two names, between 0 and 1; case is ignored. -/
def similarity (a b : String) : Rat :=
  let u : Rat := union a b
  let s : Rat := shared a b
  (u * u - (u - s) * (u - s)) / (u * u)

/-- The similarity as the bits of the nearest double-precision number. -/
def similarityBits (a b : String) : UInt64 :=
  let q := similarity a b
  (Float.ofNat q.num.toNat / Float.ofNat q.den).toBits

/-- A known name and how close it is to the unknown one. The score is their rounded similarity. -/
structure Candidate where
  name : String
  score : Rat
  distance : Nat

def Candidate.of (unknown known : String) : Candidate where
  name := known
  score := Binary.rounded (similarity unknown known)
  distance := EditDistance.distance (lowerCase unknown) (lowerCase known)

/-- The order of suggestions: by similarity, the closest first, then by edit distance, then by
name. -/
def Candidate.precedes (a b : Candidate) : Bool :=
  if a.score = b.score then
    if a.distance = b.distance then decide (a.name ≤ b.name)
    else a.distance < b.distance
  else b.score < a.score

/-- The known names whose similarity reaches a threshold, the best first. -/
def similar (unknown : String) (known : List String) (threshold : Rat) : List String :=
  let least := Binary.rounded threshold
  -- A name that is known twice is suggested once.
  let candidates := (known.eraseDups.map (Candidate.of unknown)).filter (least ≤ ·.score)
  (candidates.mergeSort Candidate.precedes).map (·.name)

def threshold : Rat := 2 / 5

/-- The names to suggest for an unknown one. -/
def didYouMean (unknown : String) (known : List String) : List String :=
  similar unknown known threshold

end Keyplan.Suggestion
