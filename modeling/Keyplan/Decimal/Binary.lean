import Keyplan.Decimal

/-!
Double-precision binary numbers, and the one nearest to a decimal.
-/

namespace Keyplan

/-- The number `mantissa * 2 ^ exponent`. -/
structure Binary where
  mantissa : Nat
  exponent : Int
  deriving DecidableEq, Repr

namespace Binary

def minExponent : Int := -1074

def precision : Nat := 53

/-- The quotient of two numbers, rounded to the nearest whole number, a half to the even one. -/
def roundDiv (num den : Nat) : Nat :=
  let q := num / den
  let twice := 2 * (num % den)
  if den < twice ∨ (twice = den ∧ q % 2 = 1) then q + 1 else q

/-- `n * 2 ^ k` as a fraction. -/
def scale (num den : Nat) (k : Int) : Nat × Nat :=
  if 0 ≤ k then (num * Nat.pow 2 k.toNat, den) else (num, den * Nat.pow 2 (-k).toNat)

/-- The largest `k` with `2 ^ k ≤ num / den`, for positive numbers. -/
def floorLog2 (num den : Nat) : Int :=
  let k : Int := (Nat.log2 num : Int) - Nat.log2 den
  let (n, d) := scale num den (-k)
  if d ≤ n then k else k - 1

/-- The binary number nearest to a positive fraction. -/
def ofFraction (num den : Nat) : Binary :=
  let e := max (floorLog2 num den - (precision - 1)) minExponent
  let (n, d) := scale num den (-e)
  let m := roundDiv n d
  -- Rounding up may carry into one bit more than fits.
  if m = Nat.pow 2 precision then ⟨Nat.pow 2 (precision - 1), e + 1⟩ else ⟨m, e⟩

def toRat (b : Binary) : Rat :=
  let (num, den) := scale b.mantissa 1 b.exponent
  (num : Rat) / (den : Rat)

/-- A fraction rounded to the nearest value of a binary number; the sign is kept. -/
def rounded (q : Rat) : Rat :=
  if q.num = 0 then 0
  else
    let magnitude := (ofFraction q.num.natAbs q.den).toRat
    if q.num < 0 then -magnitude else magnitude

end Binary

/-- The binary number nearest to a decimal, unless it is out of range. -/
def Decimal.toBinary? (d : Decimal) : Option Binary :=
  let size : Int := (Nat.toDigits 10 d.digits).length + d.exponent
  if !d.isFinite then none
  else if d.digits = 0 ∨ size < -330 then some ⟨0, Binary.minExponent⟩
  else if 0 ≤ d.exponent then some (Binary.ofFraction (d.digits * Nat.pow 10 d.exponent.toNat) 1)
  else some (Binary.ofFraction d.digits (Nat.pow 10 (-d.exponent).toNat))

end Keyplan
