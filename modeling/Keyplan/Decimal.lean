/-!
Numbers as digits spell them, in a base of their own or with a point and an exponent.
-/

namespace Keyplan

namespace Numeral

/-- The value of a digit in bases up to 36. -/
def digitValue? (c : Char) : Option Nat :=
  if c.isDigit then some (c.toNat - '0'.toNat)
  else if c.isLower then some (c.toNat - 'a'.toNat + 10)
  else if c.isUpper then some (c.toNat - 'A'.toNat + 10)
  else none

/-- The number some digits of a base spell. -/
def readDigits? (base : Nat) (cs : List Char) : Option Nat :=
  cs.foldlM (fun n c => do
    let d ← digitValue? c
    if d < base then some (base * n + d) else none) 0

def splitSign : List Char → Option Char × List Char
  | c :: cs => if c = '+' ∨ c = '-' then (some c, cs) else (none, c :: cs)
  | [] => (none, [])

/-- The number of digits whose base shows at the start: `0b`, `0o`, `0x`, or an octal zero. -/
def readMarked? : List Char → Option Nat
  | [] => none
  | '0' :: m :: d :: rest =>
    if m = 'b' ∨ m = 'B' then readDigits? 2 (d :: rest)
    else if m = 'o' ∨ m = 'O' then readDigits? 8 (d :: rest)
    else if m = 'x' ∨ m = 'X' then readDigits? 16 (d :: rest)
    else readDigits? 8 (m :: d :: rest)
  | '0' :: rest => readDigits? 8 rest
  | cs => readDigits? 10 cs

end Numeral

/-- A decimal: `digits * 10 ^ exponent`. -/
structure Decimal where
  digits : Nat
  exponent : Int

namespace Decimal

open Numeral

def readExponent? : List Char → Option Int
  | [] => some 0
  | e :: cs =>
    let (sign, digits) := splitSign cs
    if (e ≠ 'e' ∧ e ≠ 'E') ∨ digits.isEmpty then none
    else (readDigits? 10 digits).map fun n => if sign = some '-' then -(n : Int) else n

/-- A decimal without sign: digits, perhaps with a point among them, and perhaps an exponent. -/
def read? (cs : List Char) : Option Decimal := do
  let whole := cs.takeWhile Char.isDigit
  let (places, rest) := match cs.dropWhile Char.isDigit with
    | '.' :: r => (r.takeWhile Char.isDigit, r.dropWhile Char.isDigit)
    | r => ([], r)
  if whole.isEmpty && places.isEmpty then none
  else
    let digits ← readDigits? 10 (whole ++ places)
    let exponent ← readExponent? rest
    return ⟨digits, exponent - places.length⟩

/-- Whether a decimal is small enough for a double-precision number: it must not round to a power
of two that is out of range. -/
def isFinite (d : Decimal) : Bool :=
  let bound := Nat.pow 2 1024 - Nat.pow 2 970
  let size : Int := (Nat.toDigits 10 d.digits).length + d.exponent
  -- Only decimals of about the size of the bound are compared with it.
  if d.digits = 0 ∨ size < 300 then true
  else if size > 310 then false
  else if 0 ≤ d.exponent then d.digits * Nat.pow 10 d.exponent.toNat < bound
  else d.digits < bound * Nat.pow 10 (-d.exponent).toNat

end Decimal

end Keyplan
