import Keyplan.Text
import Keyplan.Text.Printable

/-!
Quoted text as diagnostics show it: printable characters stand for themselves, the delimiter and
the backslash are escaped, and everything else is written by its code. A stray byte is written as
two hexadecimal digits after `\x`.
-/

namespace Keyplan

namespace Quoted

/-- `n` in hexadecimal with at least `width` digits. -/
def hex (width n : Nat) : String :=
  let digits := Nat.toDigits 16 n
  String.ofList (List.replicate (width - digits.length) '0' ++ digits)

/-- The letter that names a control character after a backslash. -/
def controlLetter : Nat → Option Char
  | 7 => some 'a'
  | 8 => some 'b'
  | 9 => some 't'
  | 10 => some 'n'
  | 11 => some 'v'
  | 12 => some 'f'
  | 13 => some 'r'
  | _ => none

/-- One character between `delimiter`s. -/
def char (delimiter c : Char) : String :=
  if c = delimiter ∨ c = '\\' then String.ofList ['\\', c]
  else if isPrintable c then String.singleton c
  else match controlLetter c.toNat with
    | some l => String.ofList ['\\', l]
    | none =>
      if c.toNat < 0x20 ∨ c.toNat = 0x7F then "\\x" ++ hex 2 c.toNat
      else if c.toNat < 0x10000 then "\\u" ++ hex 4 c.toNat
      else "\\U" ++ hex 8 c.toNat

/-- One glyph between double quotes. -/
def glyph : Glyph → String
  | .char c => char '\"' c
  | .stray b => "\\x" ++ hex 2 b.toNat

end Quoted

def Text.quoted (t : Text) : String :=
  "\"" ++ String.join (t.map Quoted.glyph) ++ "\""

def quotedString (s : String) : String :=
  (Text.ofString s).quoted

def quotedChar (c : Char) : String :=
  "'" ++ Quoted.char '\'' c ++ "'"

end Keyplan
