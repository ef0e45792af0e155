import Keyplan.Text

/-!
White space around a text.
-/

namespace Keyplan

/-- The characters of white space: blanks of every width, tabs and line ends. -/
def isWhiteSpace (c : Char) : Bool :=
  let n := c.toNat
  (0x09 ≤ n && n ≤ 0x0D) || n ∈ [0x20, 0x85, 0xA0, 0x1680, 0x2028, 0x2029, 0x202F, 0x205F, 0x3000]
    || (0x2000 ≤ n && n ≤ 0x200A)

namespace Text

def glyphIs (p : Char → Bool) : Glyph → Bool
  | .char c => p c
  | .stray _ => false

/-- A text without white space at its ends. -/
def trim (t : Text) : Text :=
  let blank := glyphIs isWhiteSpace
  ((t.dropWhile blank).reverse.dropWhile blank).reverse

end Text

end Keyplan
