import Keyplan.Decimal.Binary

/-!
The shortest decimal of a binary number: the fewest digits that read back as the same number, and
of all such decimals the nearest one. Of two that are equally near, the one with an even last digit
is taken.
-/

namespace Keyplan.Binary

/-- The fractions around a number between which everything reads back as it, in quarters of its
last binary digit, and whether the ends themselves do. -/
structure Neighbourhood where
  low : Nat
  value : Nat
  high : Nat
  closed : Bool

/-- The neighbourhood of a number. Below a power of two numbers lie closer together. -/
def neighbourhood (b : Binary) : Neighbourhood :=
  let narrow := b.mantissa = Nat.pow 2 (precision - 1) ∧ minExponent < b.exponent
  { low := 4 * b.mantissa - (if narrow then 1 else 2)
    value := 4 * b.mantissa
    high := 4 * b.mantissa + 2
    closed := b.mantissa % 2 == 0 }

/-- The factors that turn quarters of the last binary digit of `b` into steps of `10 ^ place`. -/
def steps (b : Binary) (place : Int) : Nat × Nat :=
  let e := b.exponent - 2
  (Nat.pow 2 e.toNat * Nat.pow 10 (-place).toNat, Nat.pow 10 place.toNat * Nat.pow 2 (-e).toNat)

/-- The nearest of two candidates on one grid that lie in the neighbourhood. -/
def nearest? (n : Neighbourhood) (num den : Nat) : Option Nat :=
  let fits := fun d =>
    if n.closed then n.low * num ≤ d * den ∧ d * den ≤ n.high * num
    else n.low * num < d * den ∧ d * den < n.high * num
  let below := n.value * num / den
  let above := below + 1
  let twice := 2 * (n.value * num % den)
  let belowIsNearer := twice < den ∨ (twice = den ∧ below % 2 = 0)
  if fits below ∧ (belowIsNearer ∨ ¬fits above) then some below
  else if fits above then some above
  else none

/-- The largest `p` with `10 ^ p` not above a positive number. -/
def floorLog10 (b : Binary) : Int :=
  let bits : Int := (Nat.log2 b.mantissa : Int) + b.exponent
  -- The decimal logarithm of two is close to 0.30103, so the guess is at most one off.
  let guess := bits * 30103 / 100000
  let reaches := fun p =>
    let (num, den) := b.steps p
    den ≤ 4 * b.mantissa * num
  if reaches (guess + 1) then guess + 1 else if reaches guess then guess else guess - 1

/-- The shortest decimal with at least `digits` digits, at most `fuel` more. -/
def search (b : Binary) (top : Int) (digits : Nat) : Nat → Decimal
  | 0 => ⟨b.mantissa, 0⟩
  | fuel + 1 =>
    let place := top - (digits - 1)
    let (num, den) := b.steps place
    match nearest? b.neighbourhood num den with
    | some d => ⟨d, place⟩
    | none => search b top (digits + 1) fuel

/-- The shortest decimal of a positive number. Seventeen digits always suffice. -/
def shortest (b : Binary) : Decimal :=
  b.search b.floorLog10 1 17

end Keyplan.Binary
