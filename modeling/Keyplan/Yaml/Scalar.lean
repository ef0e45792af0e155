import Keyplan.Text.Quoted
import Keyplan.Yaml.Resolution

/-!
How a text is written as a scalar: plainly where it reads back as the same text, else between
single quotes, else between double quotes with escapes. A text of several lines is written as a
block of literal lines.
-/

namespace Keyplan.Yaml

/-! ## Characters -/

def isBreak (c : Char) : Bool :=
  c ∈ ['\n', '\r', '\u0085', '\u2028', '\u2029']

def isBlank (c : Char) : Bool :=
  c == ' ' || c == '\t'

/-- Whether a character can stand for itself. -/
def isWritable (c : Char) : Bool :=
  let n := c.toNat
  n = 0x0A || (0x20 ≤ n && n ≤ 0x7E) || (0xA0 ≤ n && n ≤ 0xD7FF)
    || (0xE000 ≤ n && n ≤ 0xFFFD && n != 0xFEFF)

/-! ## Where a text can be written plainly -/

def neighbours (cs : List Char) : List (Char × Char) :=
  cs.zip (cs.drop 1)

def startsLikeMark (cs : List Char) : Bool :=
  ['-', '-', '-'].isPrefixOf cs || ['.', '.', '.'].isPrefixOf cs

/-- Whether the first character of a text announces something else than a plain scalar. -/
def startsIndicator : List Char → Bool
  | [] => false
  | c :: rest =>
    c ∈ "#,[]\x7b\x7d&*!|>'\"%@`".toList || ((c == '?' || c == '-') && rest.head?.all isBlank)

/-- Whether a text holds a colon before a blank or at its end, or a hash sign behind a blank. -/
def holdsIndicator (cs : List Char) : Bool :=
  cs.getLast? == some ':'
    || (neighbours cs).any fun (a, b) =>
      (a == ':' && isBlank b) || (b == '#' && (isBlank a || isBreak a || a == '\x00'))

/-- Whether indicators keep a text from being plain. -/
def hasIndicators (inFlow : Bool) (cs : List Char) : Bool :=
  startsLikeMark cs || startsIndicator cs || holdsIndicator cs
    || (inFlow && cs.any fun c => c ∈ ",?[]\x7b\x7d:".toList)

/-- Whether a text starts or ends with a blank or a line break. -/
def hasOpenEnds (cs : List Char) : Bool :=
  cs.head?.any (fun c => c == ' ' || isBreak c) || cs.getLast?.any (fun c => c == ' ' || isBreak c)

/-- Whether a blank follows a line break. -/
def hasIndentedLine (cs : List Char) : Bool :=
  (neighbours cs).any fun (a, b) => isBreak a && b == ' '

/-- Whether a blank precedes a line break. -/
def hasBlankLineEnd (cs : List Char) : Bool :=
  (neighbours cs).any fun (a, b) => a == ' ' && isBreak b

/-- Whether some character has to be escaped. A tab is such a character except on a line of its
block. -/
def needsEscape (tabsFit : Bool) (cs : List Char) : Bool :=
  cs.any fun c => !isWritable c && !(tabsFit && c == '\t')

/-! ## Styles -/

inductive Style where
  | plain
  | single
  | double
  | literal
  deriving DecidableEq, Repr

def fitsSingle (cs : List Char) : Bool :=
  !(hasIndentedLine cs || hasBlankLineEnd cs || needsEscape false cs)

def fitsPlain (inFlow : Bool) (cs : List Char) : Bool :=
  fitsSingle cs && !hasOpenEnds cs && !cs.any isBreak && !hasIndicators inFlow cs

def fitsLiteral (inFlow : Bool) (cs : List Char) : Bool :=
  !(inFlow || cs.getLast? == some ' ' || hasBlankLineEnd cs || needsEscape true cs)

/-- The style of a text that may be written plainly if `free`. -/
def styleOf (inFlow free : Bool) (cs : List Char) : Style :=
  if '\n' ∈ cs then (if fitsLiteral inFlow cs then .literal else .double)
  else if !free then .double
  else if fitsPlain inFlow cs then .plain
  else if fitsSingle cs then .single
  else .double

/-! ## Writing -/

def spaces (n : Nat) : List Char :=
  List.replicate n ' '

def escapeLetter? (c : Char) : Option Char :=
  [(0x00, '0'), (0x07, 'a'), (0x08, 'b'), (0x09, 't'), (0x0A, 'n'), (0x0B, 'v'), (0x0C, 'f'),
   (0x0D, 'r'), (0x1B, 'e'), (0x22, '\"'), (0x5C, '\\'), (0x85, 'N'), (0xA0, '_'), (0x2028, 'L'),
   (0x2029, 'P')].lookup c.toNat

def escape (c : Char) : List Char :=
  let hex := fun (mark : Char) (width : Nat) =>
    mark :: (Quoted.hex width c.toNat).toList.map Char.toUpper
  '\\' :: match escapeLetter? c with
    | some letter => [letter]
    | none =>
      if c.toNat ≤ 0xFF then hex 'x' 2
      else if c.toNat ≤ 0xFFFF then hex 'u' 4
      else hex 'U' 8

/-- A text in double quotes. Everything is escaped in a text that starts with a byte order mark. -/
def writeDouble (cs : List Char) : List Char :=
  let marked := cs.head? == some '\uFEFF'
  let write := fun c =>
    if marked || !isWritable c || isBreak c || c == '\"' || c == '\\' then escape c else [c]
  '\"' :: cs.flatMap write ++ ['\"']

/-- The inside of single quotes. A line behind a break starts at column `indent`. -/
def singleBody (indent : Nat) (behindBreak : Bool) : List Char → List Char
  | [] => []
  | c :: rest =>
    if isBreak c then c :: singleBody indent true rest
    else
      (if behindBreak then spaces indent else [])
        ++ (if c = '\'' then ['\'', '\''] else [c])
        ++ singleBody indent false rest

def writeSingle (indent : Nat) (cs : List Char) : List Char :=
  '\'' :: singleBody indent false cs ++ ['\'']

/-- Literal lines. `lineOpen` says that a line with other contents has to be ended first. -/
def literalBody (indent : Nat) (lineOpen behindBreak : Bool) : List Char → List Char
  | [] => []
  | c :: rest =>
    if isBreak c then c :: literalBody indent false true rest
    else
      (if behindBreak then (if lineOpen then ['\n'] else []) ++ spaces indent else [])
        ++ c :: literalBody indent true false rest

/-- How the final line breaks of a literal text are announced. -/
def chomping (cs : List Char) : List Char :=
  match cs.reverse with
  | [] => ['-']
  | [c] => if isBreak c then ['+'] else ['-']
  | c :: d :: _ => if !isBreak c then ['-'] else if isBreak d then ['+'] else []

def writeLiteral (indent : Nat) (cs : List Char) : List Char :=
  let openStart := cs.head?.any fun c => c == ' ' || isBreak c
  '|' :: (if openStart then ['2'] else []) ++ chomping cs ++ literalBody indent true true cs

/-- A text in a style; its further lines start at column `indent`. -/
def writeScalar (style : Style) (indent : Nat) (cs : List Char) : List Char :=
  match style with
  | .plain => cs
  | .single => writeSingle indent cs
  | .double => writeDouble cs
  | .literal => writeLiteral indent cs

end Keyplan.Yaml
