import Keyplan.Decimal.Shortest
import Keyplan.Toml.Moment

/-!
Values of a configuration file, and how they are shown where a text is wanted.
-/

namespace Keyplan.Toml

/-- A double-precision number. -/
inductive Real where
  | nan
  | infinite (negative : Bool)
  | finite (negative : Bool) (magnitude : Binary)
  deriving DecidableEq, Repr

namespace Real

/-- The digits of a decimal without final zeros, and the place of the first digit: 0 for ones, 1
for tens. -/
def significant (d : Decimal) : List Char × Int :=
  let digits := Nat.toDigits 10 d.digits
  let kept := (digits.reverse.dropWhile (· == '0')).reverse
  (kept, digits.length + d.exponent - 1)

def behindPoint (digits : List Char) : String :=
  if digits.isEmpty then "" else "." ++ String.ofList digits

/-- Digits with an exponent of at least two digits. -/
def scientific (digits : List Char) (place : Int) : String :=
  String.ofList (digits.take 1) ++ behindPoint (digits.drop 1)
    ++ (if place < 0 then "e-" else "e+") ++ Moment.padded 2 place.natAbs

/-- Digits with a point where it belongs. -/
def positional (digits : List Char) (place : Int) : String :=
  if place < 0 then
    "0." ++ String.ofList (List.replicate ((-place).toNat - 1) '0' ++ digits)
  else
    let whole := place.toNat + 1
    String.ofList (digits.take whole ++ List.replicate (whole - digits.length) '0')
      ++ behindPoint (digits.drop whole)

/-- The fewest digits that read back; with an exponent below `10 ^ -4` and from `10 ^ 6` on. -/
def shown : Real → String
  | nan => "NaN"
  | infinite negative => if negative then "-Inf" else "+Inf"
  | finite negative b =>
    (if negative then "-" else "")
      ++ if b.mantissa = 0 then "0"
         else
           let (digits, place) := significant b.shortest
           if place < -4 ∨ 6 ≤ place then scientific digits place
           else positional digits place

end Real

/-- A value. The tables of `tables` were written one by one. -/
inductive Value where
  | text (s : String)
  | integer (n : Int)
  | real (x : Real)
  | boolean (b : Bool)
  | moment (m : Moment)
  | array (items : List Value)
  | table (entries : List (String × Value))
  | tables (items : List Value)

namespace Value

mutual

/-- A value as text. The entries of a table are sorted. -/
def shown : Value → String
  | text s => s
  | integer n => toString n
  | real x => x.shown
  | boolean b => if b then "true" else "false"
  | moment m => m.shown
  | array items => "[" ++ " ".intercalate (shownItems items) ++ "]"
  | tables items => "[" ++ " ".intercalate (shownItems items) ++ "]"
  | table entries =>
    let sorted := (shownEntries entries).mergeSort fun a b => decide (a.1 ≤ b.1)
    "map[" ++ " ".intercalate (sorted.map fun (key, value) => key ++ ":" ++ value) ++ "]"

def shownItems : List Value → List String
  | [] => []
  | v :: rest => v.shown :: shownItems rest

def shownEntries : List (String × Value) → List (String × String)
  | [] => []
  | (key, v) :: rest => (key, v.shown) :: shownEntries rest

end

end Value

end Keyplan.Toml
