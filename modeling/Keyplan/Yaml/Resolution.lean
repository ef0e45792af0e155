import Keyplan.Decimal
import Keyplan.Word
import Keyplan.Yaml.Timestamp

/-!
What a plain scalar reads as. A text can be written plainly only if it reads as a string again, and
not as null, a truth value, a number or a point in time. Numbers may have underscores anywhere.
-/

namespace Keyplan.Yaml

open Numeral

/-! ## Words -/

/-- The words that mean null or a truth value, and the numbers written as words. -/
def reservedWords : List String :=
  ["", "~", "null", "Null", "NULL", "true", "True", "TRUE", "false", "False", "FALSE",
   ".nan", ".NaN", ".NAN", ".inf", ".Inf", ".INF", "+.inf", "+.Inf", "+.INF",
   "-.inf", "-.Inf", "-.INF"]

/-- The words that were truth values in older versions of the format. -/
def formerTruthWords : List String :=
  ["y", "Y", "yes", "Yes", "YES", "on", "On", "ON", "n", "N", "no", "No", "NO", "off", "Off", "OFF"]

/-! ## Integers -/

/-- Whether a number with a sign fits 64 bits with one, or a number without a sign fits 64 bits
without one. -/
def fitsWord (sign : Option Char) (n : Nat) : Bool :=
  match sign with
  | none => n < Word.unsignedEnd
  | some s => if s = '-' then n ≤ Word.signedEnd else n < Word.signedEnd

/-- Whether a text is an integer of a given base, with an optional sign. -/
def isIntegerIn (base : Nat) (cs : List Char) : Bool :=
  let (sign, digits) := splitSign cs
  !digits.isEmpty && (readDigits? base digits).any (fitsWord sign)

/-- Whether a text is an integer. The sign of a binary or octal number may also follow its mark. -/
def isInteger (cs : List Char) : Bool :=
  let (sign, magnitude) := splitSign cs
  (readMarked? magnitude).any (fitsWord sign)
    || match cs with
      | '0' :: 'b' :: rest => isIntegerIn 2 rest
      | '0' :: 'o' :: rest => isIntegerIn 8 rest
      | _ => false

/-! ## Decimals -/

def isDecimal (cs : List Char) : Bool :=
  (Decimal.read? (splitSign cs).2).any Decimal.isFinite

def underscoresSeparate : List Char → Bool
  | [] => true
  | [c] => c != '_'
  | c :: d :: rest =>
    (c != '_' || d.isDigit) && (d != '_' || c.isDigit) && underscoresSeparate (d :: rest)

/-! ## Reading -/

def dropUnderscores (cs : List Char) : List Char :=
  cs.filter (· != '_')

/-- Whether a text that starts with a sign or a digit is a number or a point in time. -/
def isNumeric (cs : List Char) : Bool :=
  let plain := dropUnderscores cs
  isTimestamp cs || isInteger plain || isDecimal plain

/-- Whether a plain scalar reads as a string. -/
def readsAsString (cs : List Char) : Bool :=
  if String.ofList cs ∈ reservedWords then false
  else match cs with
    | [] => false
    | '.' :: _ => !(underscoresSeparate cs && isDecimal (dropUnderscores cs))
    | c :: _ => if c.isDigit ∨ c = '+' ∨ c = '-' then !isNumeric cs else true

/-! ## Numbers of base 60 -/

/-- Whether a text is made of groups of one or two digits below 60, each behind a colon, and
perhaps a fraction. -/
def isBase60Groups : List Char → Bool
  | ':' :: a :: b :: rest =>
    if !a.isDigit then false
    else if b.isDigit then a.toNat ≤ '5'.toNat && isBase60Tail rest
    else isBase60Tail (b :: rest)
  | [':', a] => a.isDigit
  | _ => false
where
  /-- What may follow a group. -/
  isBase60Tail : List Char → Bool
    | [] => true
    | '.' :: rest => rest.all fun c => c.isDigit || c == '_'
    | ':' :: rest => isBase60Groups (':' :: rest)
    | _ => false

/-- Whether a text was a number of base 60 in older versions of the format. -/
def isBase60 (cs : List Char) : Bool :=
  match (splitSign cs).2 with
  | c :: rest => c.isDigit && isBase60Groups (rest.dropWhile fun d => d.isDigit || d == '_')
  | [] => false

/-- Whether older versions of the format read a plain scalar as something else than a string. -/
def wasNoString (cs : List Char) : Bool :=
  isBase60 cs || decide (String.ofList cs ∈ formerTruthWords)

end Keyplan.Yaml
