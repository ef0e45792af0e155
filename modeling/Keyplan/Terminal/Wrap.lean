import Keyplan.Terminal.Columns
import Keyplan.Terminal.Sequence
import Keyplan.Text.Blank

/-!
Breaking a text into lines of a limited number of columns. A line is broken between words, behind a
hyphen, or within a word that has no room on a line of its own. Blanks at a break are left out.

`wrap` breaks a text, and `lineCount` counts the lines of a text that is broken by slightly
different rules: there every control character takes a column, and a word is broken as soon as it
fills a line.
-/

namespace Keyplan.Terminal

/-! ## Breaking -/

/-- A text that is being broken. What is written goes up to the last word that has ended; behind it
come blanks and a word that has not ended yet. -/
structure Filling where
  written : Text := []
  /-- The columns written on the last line. -/
  column : Nat := 0
  blanks : Text := []
  word : Text := []
  /-- The columns the word takes. -/
  wordColumns : Nat := 0
  /-- The pen and the link the last sequence asked for. -/
  pen : Pen := {}
  link : Link := {}
  /-- The pen and the link at the end of what is written. -/
  writtenPen : Pen := {}
  writtenLink : Link := {}

namespace Filling

def obey (f : Filling) : Request → Filling
  | .pen ps => { f with pen := f.pen.obey ps }
  | .link l => { f with link := l }

def endBlanks (f : Filling) : Filling :=
  { f with
    written := f.written ++ f.blanks
    column := f.column + f.blanks.length
    blanks := [] }

/-- Writes the word and the blanks before it, if there is a word. -/
def endWord (f : Filling) : Filling :=
  if f.word.isEmpty then f
  else
    let f := f.endBlanks
    { f with
      written := f.written ++ f.word
      column := f.column + f.wordColumns
      word := []
      wordColumns := 0
      writtenPen := f.pen
      writtenLink := f.link }

/-- Breaks the line in front of the word. The pen and the link are put aside at the end of the line
and taken up again on the next one. -/
def breakLine (f : Filling) : Filling :=
  let hasPen := f.writtenPen ≠ {}
  let hasLink := f.writtenLink ≠ {}
  let ending := (if hasPen then Pen.reset else []) ++ (if hasLink then Link.sequence {} else [])
  let start := (if hasLink then f.writtenLink.sequence else [])
    ++ (if hasPen then f.writtenPen.sequence else [])
  { f with
    written := f.written ++ ending ++ [Text.lineFeed] ++ start
    column := 0
    blanks := [] }

/-- Adds to the word what takes no columns. -/
def addHidden (f : Filling) (t : Text) : Filling :=
  { f with word := f.word ++ t }

/-- Adds to the word what takes some columns. -/
def addShown (limit : Nat) (f : Filling) (t : Text) (columns : Nat) : Filling :=
  -- A word that would be too long for a line is written up to here.
  let f := if limit < f.wordColumns + columns then f.endWord else f
  let f := { f with word := f.word ++ t, wordColumns := f.wordColumns + columns }
  -- A word that has no room behind what is written goes to the next line.
  if limit < f.column + f.wordColumns + f.blanks.length then f.breakLine else f

/-- Adds a hyphen, behind which the line can be broken if it has room for the hyphen. -/
def addHyphen (limit : Nat) (f : Filling) (g : Glyph) : Filling :=
  let f := f.endBlanks
  if f.column + f.wordColumns + 1 ≤ limit then
    let f := f.endWord
    { f with written := f.written ++ [g], column := f.column + 1 }
  else f.addShown limit [g] 1

/-- Settles the blanks at the end of a line: they are kept where they have room. -/
def settleBlanks (limit : Nat) (f : Filling) : Filling :=
  if f.wordColumns ≠ 0 then f
  else if limit < f.column + f.blanks.length then { f with column := 0, blanks := [] }
  else { f with written := f.written ++ f.blanks, blanks := [] }

/-- Adds a byte that belongs to no sequence. -/
def addByte (limit : Nat) (f : Filling) (g : Glyph) : Filling :=
  if g = Text.lineFeed then ((f.settleBlanks limit).endWord).breakLine
  -- A blank that shows its background or an underline is no place to break a line.
  else if g = .char ' ' ∧ f.pen.leavesBlanks then
    let f := f.endWord
    { f with blanks := f.blanks ++ [g] }
  else if g = .char '-' then f.addHyphen limit g
  else match g.bytes with
    | [b] =>
      if between 0x20 0x7E b.toNat then f.addShown limit [g] 1 else f.addHidden [g]
    | _ => f.addHidden [g]

def addCluster (limit : Nat) (f : Filling) (c : Cluster) : Filling :=
  if c.columns = 0 then f.addHidden c.text else f.addShown limit c.text c.columns

/-- The text at the end: the last word is written, and the pen and the link are put aside. -/
def finish (limit : Nat) (f : Filling) : Text :=
  let f := (f.settleBlanks limit).endWord
  f.written ++ (if f.writtenLink ≠ {} then Link.sequence {} else [])
    ++ (if f.writtenPen ≠ {} then Pen.reset else [])

end Filling

/-- Whether a glyph opens a cluster: it is neither ASCII nor a stray byte that cannot lead a
character. -/
def leadsCluster (g : Glyph) : Bool :=
  match g.bytes with
  | [] => false
  | b :: _ => 0xC0 ≤ b.toNat

/-- Breaks the rest of a text, in the middle of a sequence or outside of any. -/
def fill (limit : Nat) (f : Filling) (current : Option Sequence) : Text → Filling
  | [] => ((current.bind Sequence.request?).toList).foldl Filling.obey f
  | g :: rest =>
    if g.bytes.head?.any (Sequence.takes current) then
      let (current, requests) := Sequence.readAll current g.bytes
      fill limit ((requests.foldl Filling.obey f).addHidden [g]) current rest
    else
      -- The glyph is no part of the sequence, which ends in front of it.
      let f := ((current.bind Sequence.request?).toList).foldl Filling.obey f
      if leadsCluster g then
        let c := Cluster.atStart g rest
        fill limit (f.addCluster limit c) none (rest.drop c.more.length)
      else fill limit (f.addByte limit g) none rest
termination_by t => t.length
decreasing_by
  all_goals simp only [List.length_drop, List.length_cons]
  all_goals omega

/-- A text broken into lines of at most `limit` columns. -/
def wrap (limit : Nat) (t : Text) : Text :=
  if limit = 0 ∨ t = [] then t else (fill limit {} none t).finish limit

/-! ## Counting -/

/-- A line that is being counted. -/
structure Tally where
  breaks : Nat := 0
  /-- The columns written on the last line. -/
  column : Nat := 0
  /-- The bytes of the blanks behind them. -/
  blanks : Nat := 0
  /-- Whether a word has begun, and the columns it takes. -/
  hasWord : Bool := false
  word : Nat := 0

namespace Tally

def endBlanks (y : Tally) : Tally :=
  { y with column := y.column + y.blanks, blanks := 0 }

/-- Counts the word and the blanks before it as written, if there is a word. -/
def endWord (y : Tally) : Tally :=
  if y.hasWord then
    { y with column := y.column + y.blanks + y.word, blanks := 0, hasWord := false, word := 0 }
  else y

def breakLine (y : Tally) : Tally :=
  { y with breaks := y.breaks + 1, column := 0, blanks := 0 }

/-- Makes the word longer, by no column for what is not shown. -/
def lengthen (y : Tally) (columns : Nat) : Tally :=
  { y with hasWord := true, word := y.word + columns }

/-- Breaks the line in front of a word that has no room on it. -/
def breakIfFull (limit : Nat) (y : Tally) : Tally :=
  if limit < y.column + y.word + y.blanks then y.breakLine else y

/-- Ends the word at a blank. -/
def addBlank (y : Tally) (bytes : Nat) : Tally :=
  let y := y.endWord
  { y with blanks := y.blanks + bytes }

/-- Adds a hyphen, which is part of the word on a line that is full. -/
def addHyphen (limit : Nat) (y : Tally) : Tally :=
  let y := y.endBlanks
  if limit ≤ y.column + y.word then y.lengthen 1
  else
    let y := y.endWord
    { y with column := y.column + 1 }

def addByte (limit : Nat) (y : Tally) : Tally :=
  let y := if y.column = limit then y.breakLine else y
  let y := y.lengthen 1
  let y := if y.word = limit then y.endWord else y
  y.breakIfFull limit

def addCluster (limit : Nat) (y : Tally) (columns : Nat) : Tally :=
  let y := if limit < y.word + columns then y.endWord else y
  (y.lengthen columns).breakIfFull limit

/-- Whether a line can be broken at a character. -/
def isBreak (c : Char) : Bool :=
  isWhiteSpace c && c != '\u00A0'

def add (limit : Nat) (y : Tally) : Piece → Tally
  | .cluster c =>
    if isBreak c.first.shown then y.addBlank c.first.bytes.length
    else y.addCluster limit c.columns
  | .octet b e =>
    let c := Char.ofNat b.toNat
    if e ≠ .print ∧ e ≠ .execute then y.lengthen 0
    else if isWhiteSpace c then y.addBlank c.utf8Size
    else if c = '-' then y.addHyphen limit
    else y.addByte limit

end Tally

/-- The number of lines that a line without line ends is broken into. -/
def lineCount (limit : Nat) (line : Text) : Nat :=
  if limit = 0 then 1 else ((pieces .ground line).foldl (Tally.add limit) {}).breaks + 1

end Keyplan.Terminal
