import Keyplan.Diagnostic
import Keyplan.Token

/-!
The tokens of a source text. Only a line feed starts a new row, and columns count characters. The
end of the file stands after the last lexeme, at the start of the next row when that is a line end.
-/

namespace Keyplan

/-- The position after a glyph that stands at `p`. -/
def Position.after (p : Position) : Glyph → Position
  | .char '\n' => { row := p.row + 1, col := 1 }
  | g => { p with col := p.col + g.columns }

namespace Lexeme

def next (l : Lexeme) (p : Position) : Position :=
  l.text.foldl Position.after p

/-- The place of a lexeme that starts at `p`: it never leaves the row it starts on. -/
def spanAt (l : Lexeme) (p : Position) : Span :=
  { start := p, stop := { p with col := p.col + l.text.length } }

/-- Lexemes with the positions they start at. -/
def locate (p : Position) : List Lexeme → List (Lexeme × Position)
  | [] => []
  | l :: rest => (l, p) :: locate (l.next p) rest

/-- Where the file ends when its last lexeme starts at `p`. -/
def endPosition (l : Lexeme) (p : Position) : Position :=
  if l.kind = .newline then { row := p.row + 1, col := 1 } else (l.spanAt p).stop

end Lexeme

structure TokenStream where
  tokens : List Token
  stop : Position
  deriving DecidableEq, Repr

namespace TokenStream

def tokenOf? (entry : Lexeme × Position) : Option Token :=
  (Token.Kind.ofLexeme? entry.1).map fun kind =>
    { kind := kind, lexeme := entry.1.text, span := entry.1.spanAt entry.2 }

def ofText (source : Text) : TokenStream :=
  let located := Lexeme.locate { row := 1, col := 1 } (Lexeme.scan source)
  { tokens := located.filterMap tokenOf?
    stop := match located.getLast? with
      | none => { row := 1, col := 1 }
      | some (l, p) => l.endPosition p }

/-- The tokens before the first number that is too large, and the diagnostic for that number; the
end of the file closes a list without such a number. -/
def readable (s : TokenStream) : List Token × Option Diagnostic :=
  let sound := s.tokens.takeWhile (·.kind ≠ .oversized)
  match s.tokens.find? (·.kind = .oversized) with
  | none => (sound ++ [Token.endOfFile s.stop], none)
  | some t => (sound, some
      { cause := .form .invalidNumber, detail := t.lexeme.shown, span := t.span })

end TokenStream

end Keyplan
