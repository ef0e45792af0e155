import Keyplan.Span
import Keyplan.Text.Quoted
import Keyplan.Token.Lexeme
import Keyplan.Word

/-!
Tokens: lexemes that mean something, with the value they carry and the place they stand at.
-/

namespace Keyplan

namespace Token

inductive Kind where
  | identifier (name : String)
  | keyCount (n : Nat)
  | spaceCount (n : Nat)
  | integer (n : Nat)
  /-- A number that does not fit a 64-bit signed integer. -/
  | oversized
  | character (c : Char)
  | string (contents : String)
  | symbol (s : Symbol)
  | invalid
  | endOfFile
  deriving DecidableEq, Repr

def Kind.name : Kind → String
  | identifier _ => "id"
  | keyCount _ => "key count"
  | spaceCount _ => "space count"
  | integer _ => "integer"
  | oversized => "integer"
  | character _ => "character"
  | string _ => "string"
  | symbol s => s.text
  | invalid => "invalid"
  | endOfFile => "eof"

end Token

/-- A token, the text it was read from, and its place. -/
structure Token where
  kind : Token.Kind
  lexeme : Text := []
  span : Span := {}
  deriving DecidableEq, Repr

namespace Token

/-- The text a token stands for: the contents of a string, and the lexeme of any other token. -/
def text (t : Token) : Text :=
  match t.kind with
  | .string contents => Text.ofString contents
  | _ => t.lexeme

def description (t : Token) : String :=
  match t.kind with
  | .endOfFile => "end of file"
  | .invalid => t.text.quoted
  | kind => if t.text.isEmpty then kind.name else kind.name ++ " " ++ t.text.quoted

def endOfFile (p : Position) : Token where
  kind := .endOfFile
  span := .point p

/-! ## Reading the value of a lexeme -/

def digitsValue (digits : List Char) : Nat :=
  digits.foldl (fun n d => 10 * n + (d.toNat - '0'.toNat)) 0

/-- The contents of a string literal: a backslash gives way to the character after it. -/
def unescape : List Char → List Char
  | [] => []
  | ['\\'] => []
  | '\\' :: c :: rest => c :: unescape rest
  | c :: rest => c :: unescape rest

/-- The contents of a string literal that stands for `cs`: a backslash before every quote and every
backslash. -/
def escape : List Char → List Char
  | [] => []
  | c :: rest => if c = '\\' ∨ c = '\"' then '\\' :: c :: escape rest else c :: escape rest

/-- What is escaped reads back. -/
theorem unescape_escape (cs : List Char) : unescape (escape cs) = cs := by
  induction cs with
  | nil => rfl
  | cons c rest ih =>
    rw [escape]
    split
    · rw [unescape, ih]
    · rename_i h
      have hc : c ≠ '\\' := fun e => h (Or.inl e)
      cases hr : escape rest with
      | nil =>
        rw [hr] at ih
        simp_all [unescape]
      | cons d ds =>
        rw [hr] at ih
        simp_all [unescape]

def charsOf (t : Text) : List Char :=
  t.map Glyph.shown

/-- A number token, unless the number is too large. -/
def numberKind (make : Nat → Kind) (digits : List Char) : Kind :=
  let n := digitsValue digits
  if n < Word.signedEnd then make n else .oversized

/-- What a lexeme means; blanks and line ends mean nothing. -/
def Kind.ofLexeme? (l : Lexeme) : Option Kind :=
  let chars := charsOf l.text
  match l.kind with
  | .blank => none
  | .newline => none
  | .identifier => some (.identifier (String.ofList chars))
  | .keyCount => some (numberKind .keyCount chars.dropLast)
  | .spaceCount => some (numberKind .spaceCount chars.dropLast)
  | .integer => some (numberKind .integer chars)
  | .character => some (.character (chars.getD 1 '\''))
  | .string => some (.string (String.ofList (unescape chars.tail.dropLast)))
  | .symbol s => some (.symbol s)
  | .invalid => some .invalid

end Token

end Keyplan
