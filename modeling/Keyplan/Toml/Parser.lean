import Keyplan.Text
import Keyplan.Toml.Value
import Keyplan.Word

/-!
Reading a configuration file: a list of table headers and of entries, each on lines of its own.
What the statements define is for `Toml.Document`.
-/

namespace Keyplan.Toml

/-- The names on the way to a value. -/
abbrev Key := List String

inductive Expr where
  | literal (v : Value)
  | array (items : List Expr)
  | inline (entries : List (Key × Expr))

inductive Statement where
  /-- `[key]` -/
  | table (key : Key)
  /-- `[[key]]` -/
  | tableItem (key : Key)
  /-- `key = value` -/
  | entry (key : Key) (value : Expr)

/-! ## Characters -/

def isSpace (c : Char) : Bool := c == ' ' || c == '\t'

def isNewline (c : Char) : Bool := c == '\n' || c == '\r'

def isBareKeyChar (c : Char) : Bool :=
  c.isAlphanum || c == '_' || c == '-'

def isHexDigit (c : Char) : Bool :=
  (Numeral.digitValue? c).any (· < 16)

/-- Whether a file can hold a character. -/
def isAllowed (c : Char) : Bool :=
  c == '\t' || isNewline c || (0x20 ≤ c.toNat && c.toNat != 0x7F)

/-- Whether every carriage return belongs to a line end. -/
def returnsEndLines : List Char → Bool
  | [] => true
  | ['\r'] => false
  | c :: d :: rest => (c != '\r' || d == '\n') && returnsEndLines (d :: rest)
  | [_] => true

/-- The characters of a file, if it can hold them; a byte order mark at the start is left out. -/
def characters? (t : Text) : Option (List Char) := do
  let cs ← t.mapM fun g => match g with
    | .char c => some c
    | .stray _ => none
  let cs := if cs.head? = some '\uFEFF' then cs.drop 1 else cs
  if cs.all isAllowed && returnsEndLines cs then some cs else none

def dropSpaces (cs : List Char) : List Char :=
  cs.dropWhile isSpace

/-- Drops blanks, line ends and comments. -/
def dropLines (inComment : Bool) : List Char → List Char
  | [] => []
  | c :: rest =>
    if inComment then dropLines (!isNewline c) rest
    else if isSpace c || isNewline c then dropLines false rest
    else if c = '#' then dropLines true rest
    else c :: rest

/-! ## Strings -/

def charOfHex? (digits : List Char) : Option Char := do
  let n ← Numeral.readDigits? 16 digits
  if n.isValidChar then some (Char.ofNat n) else none

def escape? (c : Char) : Option Char :=
  [('b', '\x08'), ('t', '\t'), ('n', '\n'), ('f', '\x0c'), ('r', '\r'), ('\"', '\"'),
   ('\\', '\\')].lookup c

/-- Reads the code of an escape behind its letter, and gives back how many characters it takes. -/
def readEscape? : List Char → Option (Char × Nat)
  | [] => none
  | c :: rest =>
    if c = 'u' ∨ c = 'U' then
      let width := if c = 'u' then 4 else 8
      if rest.length < width then none
      else (charOfHex? (rest.take width)).map fun x => (x, width + 1)
    else (escape? c).map fun x => (x, 1)

/-- Reads the rest of a string between double quotes. The first `skip` characters belong to an
escape that was read already. -/
def readBasic? (skip : Nat) : List Char → Option (List Char × List Char)
  | [] => none
  | c :: rest =>
    match skip with
    | n + 1 => readBasic? n rest
    | 0 =>
      if c = '\"' then some ([], rest)
      else if isNewline c then none
      else if c = '\\' then do
        let (x, width) ← readEscape? rest
        let (s, rest) ← readBasic? width rest
        some (x :: s, rest)
      else do
        let (s, rest) ← readBasic? 0 rest
        some (c :: s, rest)

/-- Reads the rest of a string between single quotes. -/
def readRaw? : List Char → Option (List Char × List Char)
  | [] => none
  | c :: rest =>
    if c = '\'' then some ([], rest)
    else if isNewline c then none
    else do
      let (s, rest) ← readRaw? rest
      some (c :: s, rest)

/-- The quotes at the start of a text that closes a string of several lines: three of them close
it, and up to `kept` before those belong to it. -/
def closing? (quote : Char) (kept : Nat) (cs : List Char) :
    Option (Option (List Char × List Char)) :=
  let run := (cs.takeWhile (· == quote)).length
  if run < 3 then none
  else if run ≤ kept + 3 then some (some (List.replicate (run - 3) quote, cs.drop run))
  else some none

/-- How many quotes a string of several lines can keep before those that close it. -/
def keptQuotes : Nat := 2

/-- Whether a backslash in front of a text ends its line. -/
def endsLine (cs : List Char) : Bool :=
  (cs.takeWhile fun c => isSpace c || isNewline c).any (· == '\n')

/-- What stands in front of a place in a string of several lines. -/
inductive Ahead where
  | other
  /-- A backslash that ends its line: blanks and line ends behind it are left out. -/
  | lineJoin
  /-- A backslash written as an escape: it makes room for one more quote before the closing ones. -/
  | backslash
  deriving DecidableEq, Repr

/-- Reads the rest of a string between triple double quotes. The first `skip` characters belong to
an escape that was read already. -/
def readBasicLines? (skip : Nat) (ahead : Ahead) : List Char → Option (List Char × List Char)
  | [] => none
  | c :: rest =>
    match skip with
    | n + 1 => readBasicLines? n ahead rest
    | 0 =>
      if ahead = .lineJoin && (isSpace c || isNewline c) then readBasicLines? 0 .lineJoin rest
      else match closing? '\"' (if ahead = .backslash then keptQuotes + 1 else keptQuotes)
          (c :: rest) with
        | some closed => closed
        | none =>
          if c = '\\' then
            if endsLine rest then readBasicLines? 0 .lineJoin rest
            else do
              let (x, width) ← readEscape? rest
              let escaped := if rest.head? = some '\\' then Ahead.backslash else .other
              let (s, rest) ← readBasicLines? width escaped rest
              some (x :: s, rest)
          else do
            let (s, rest) ← readBasicLines? 0 .other rest
            some (c :: s, rest)

/-- Reads the rest of a string between triple single quotes. -/
def readRawLines? : List Char → Option (List Char × List Char)
  | [] => none
  | c :: rest =>
    match closing? '\'' keptQuotes (c :: rest) with
    | some closed => closed
    | none => do
      let (s, rest) ← readRawLines? rest
      some (c :: s, rest)

def dropFirstLineEnd : List Char → List Char
  | '\n' :: rest => rest
  | '\r' :: '\n' :: rest => rest
  | cs => cs

def readString? : List Char → Option (List Char × List Char)
  -- three quotes first, as two of them are also an empty string
  | '\"' :: '\"' :: '\"' :: rest => readBasicLines? 0 .other (dropFirstLineEnd rest)
  | '\'' :: '\'' :: '\'' :: rest => readRawLines? (dropFirstLineEnd rest)
  | '\"' :: rest => readBasic? 0 rest
  | '\'' :: rest => readRaw? rest
  | _ => none

/-! ## Numbers -/

/-- Whether each underscore follows a digit, and the last character is one. -/
def underscoresFit (cs : List Char) : Bool :=
  let follows := (cs.zip (cs.drop 1)).all fun (a, b) => b != '_' || isHexDigit a
  follows && cs.head? != some '_' && cs.getLast?.any isHexDigit

def hasLeadingZero (cs : List Char) : Bool :=
  match (Numeral.splitSign cs).2 with
  | '0' :: c :: _ => !(c ∈ ['b', 'o', 'x'])
  | _ => false

def dropUnderscores (cs : List Char) : List Char :=
  cs.filter (· != '_')

/-- Reads a whole number, which has to fit 64 bits. -/
def integer? (cs : List Char) : Option Int := do
  let (sign, digits) := Numeral.splitSign cs
  let n ← Numeral.readMarked? (dropUnderscores digits)
  let limit := if sign = some '-' then Word.signedEnd + 1 else Word.signedEnd
  if underscoresFit cs && !hasLeadingZero cs && n < limit then
    some (if sign = some '-' then -(n : Int) else n)
  else none

/-- The pieces of a text between its points and exponent marks. -/
def pieces : List Char → List (List Char)
  | [] => [[]]
  | c :: cs =>
    if c ∈ ['.', 'e', 'E'] then [] :: pieces cs
    else match pieces cs with
      | [] => [[c]]
      | p :: ps => (c :: p) :: ps

/-- Whether a digit follows every point. -/
def pointsFit (cs : List Char) : Bool :=
  cs.getLast? != some '.' && (cs.zip (cs.drop 1)).all fun (a, b) => a != '.' || b.isDigit

/-- Reads a number with a point or an exponent, which has to be in range. -/
def real? (cs : List Char) : Option Real := do
  let (sign, _) := Numeral.splitSign cs
  -- Underscores stand between digits, so none may touch a point or an exponent mark.
  let parts := (pieces cs).filter fun p => !p.isEmpty
  if !parts.all underscoresFit || hasLeadingZero (parts.headD []) || !pointsFit cs then none
  else
    let d ← Decimal.read? (Numeral.splitSign (dropUnderscores cs)).2
    let b ← d.toBinary?
    some (.finite (sign == some '-') b)

/-- The characters at the start of a text that can be part of a number or a date. -/
def numberSpan (cs : List Char) : List Char :=
  let digits := fun c => c.isDigit || c == '_'
  let wide := fun (c : Char) => digits c || c ∈ ['.', '-', '+', 'e', 'E']
  let (sign, magnitude) := Numeral.splitSign cs
  let body := match magnitude with
    | '0' :: 'x' :: rest => '0' :: 'x' :: rest.takeWhile fun c => isHexDigit c || c == '_'
    | '0' :: 'o' :: rest => '0' :: 'o' :: rest.takeWhile digits
    | '0' :: 'b' :: rest => '0' :: 'b' :: rest.takeWhile digits
    | _ =>
      let whole := magnitude.takeWhile digits
      match magnitude.drop whole.length with
      | c :: rest => if c ∈ ['.', 'e', 'E'] then whole ++ c :: rest.takeWhile wide else whole
      | [] => whole
  sign.toList ++ body

/-- The characters at the start of a text that can be part of a date or a time. -/
def momentSpan (cs : List Char) : List Char :=
  cs.takeWhile fun c => c.isDigit || c ∈ ['-', ':', 'T', 't', ' ', '.', 'Z', 'z', '+']

/-- Whether a text starts like a date or a time: digits and then a dash or a colon. -/
def startsMoment (cs : List Char) : Bool :=
  let digits := cs.takeWhile Char.isDigit
  2 ≤ digits.length && (cs.drop digits.length).head?.any fun c => c == '-' || c == ':'

/-- The letters that mark a base behind a zero. -/
def baseMarks : List (Char × Nat) :=
  [('b', 2), ('o', 8), ('x', 16)]

/-- The base a number is marked with, and what stands behind the mark. -/
def markedBase? : List Char → Option (Nat × List Char)
  | '0' :: c :: rest => (baseMarks.lookup c).map fun base => (base, rest)
  | _ => none

/-- Reads a number, which has a digit in front. Only whole numbers without a sign have a base of
their own, and a digit of that base follows its mark. -/
def number? (cs : List Char) : Option Value :=
  let (sign, magnitude) := Numeral.splitSign cs
  let whole := (integer? cs).map Value.integer
  match markedBase? magnitude with
  | some (base, digits) =>
    let isDigit := fun c => (Numeral.digitValue? c).any (· < base)
    if sign.isNone && digits.head?.any isDigit then whole else none
  | none =>
    if !magnitude.head?.any Char.isDigit then none
    else if cs.any fun c => c ∈ ['.', 'e', 'E'] then (real? cs).map .real
    else whole

/-! ## Values -/

/-- The values that are written as words, with and without a sign. -/
def words : List (String × Value) :=
  [("true", .boolean true), ("false", .boolean false), ("inf", .real (.infinite false)),
   ("+inf", .real (.infinite false)), ("-inf", .real (.infinite true)), ("nan", .real .nan),
   ("+nan", .real .nan), ("-nan", .real .nan)]

def readWord? (cs : List Char) : Option (Value × List Char) :=
  words.findSome? fun (word, v) =>
    if word.toList.isPrefixOf cs then some (v, cs.drop word.length) else none

/-- Reads a value that holds no other value. -/
def readLiteral? (cs : List Char) : Option (Value × List Char) :=
  if startsMoment cs then do
    -- A blank belongs to a date only in front of a time.
    let written := momentSpan cs
    let m ← Moment.read? ((written.reverse.dropWhile (· == ' ')).reverse)
    some (.moment m, cs.drop written.length)
  else match cs with
    | '\"' :: _ | '\'' :: _ => do
      let (s, rest) ← readString? cs
      some (.text (String.ofList s), rest)
    | _ =>
      match readWord? cs with
      | some found => some found
      | none => do
        let written := numberSpan cs
        let v ← number? written
        some (v, cs.drop written.length)

/-! ## Keys -/

def readName? : List Char → Option (String × List Char)
  | '\"' :: rest => (readBasic? 0 rest).map fun (s, rest) => (String.ofList s, rest)
  | '\'' :: rest => (readRaw? rest).map fun (s, rest) => (String.ofList s, rest)
  | cs =>
    let name := cs.takeWhile isBareKeyChar
    if name.isEmpty then none else some (String.ofList name, cs.drop name.length)

/-- Reads names with points between them, and the blanks around them. -/
def readKeyFrom? : Nat → List Char → Option (Key × List Char)
  | 0, _ => none
  | fuel + 1, cs => do
    let (name, rest) ← readName? (dropSpaces cs)
    match dropSpaces rest with
    | '.' :: rest => do
      let (names, rest) ← readKeyFrom? fuel rest
      some (name :: names, rest)
    | rest => some ([name], rest)

/-- Reads a key. It has no more names than characters. -/
def readKey? (cs : List Char) : Option (Key × List Char) :=
  readKeyFrom? cs.length cs

/-! ## Nested values -/

mutual

def readValue? : Nat → List Char → Option (Expr × List Char)
  | 0, _ => none
  | fuel + 1, cs =>
    match cs with
    | '[' :: rest => (readItems? fuel rest).map fun (items, rest) => (.array items, rest)
    | '\x7b' :: rest =>
      match dropSpaces rest with
      | '\x7d' :: rest => some (.inline [], rest)
      | rest => (readEntries? fuel rest).map fun (entries, rest) => (.inline entries, rest)
    | cs => (readLiteral? cs).map fun (v, rest) => (.literal v, rest)

/-- Reads the items of an array up to its end. -/
def readItems? : Nat → List Char → Option (List Expr × List Char)
  | 0, _ => none
  | fuel + 1, cs =>
    match dropLines false cs with
    | ']' :: rest => some ([], rest)
    | cs => do
      let (item, rest) ← readValue? fuel cs
      match dropLines false rest with
      | ']' :: rest => some ([item], rest)
      -- A comma may stand behind the last item; behind the last entry of a table it may not.
      | ',' :: rest => do
        let (items, rest) ← readItems? fuel rest
        some (item :: items, rest)
      | _ => none

/-- Reads the entries of a table within a line, up to its end. -/
def readEntries? : Nat → List Char → Option (List (Key × Expr) × List Char)
  | 0, _ => none
  | fuel + 1, cs => do
    let (key, rest) ← readKey? cs
    match rest with
    | '=' :: rest => do
      let (value, rest) ← readValue? fuel (dropSpaces rest)
      match dropSpaces rest with
      | '\x7d' :: rest => some ([(key, value)], rest)
      | ',' :: rest => do
        let (entries, rest) ← readEntries? fuel rest
        some ((key, value) :: entries, rest)
      | _ => none
    | _ => none

end

/-! ## Statements -/

/-- Reads a statement. A nested value has at most two steps for each of its characters. -/
def readStatement? : List Char → Option (Statement × List Char)
  | '[' :: '[' :: rest => do
    let (key, rest) ← readKey? rest
    match rest with
    | ']' :: ']' :: rest => some (.tableItem key, rest)
    | _ => none
  | '[' :: rest => do
    let (key, rest) ← readKey? rest
    match rest with
    | ']' :: rest => some (.table key, rest)
    | _ => none
  | cs => do
    let (key, rest) ← readKey? cs
    match rest with
    | '=' :: rest => do
      let rest := dropSpaces rest
      let (value, rest) ← readValue? (2 * rest.length + 2) rest
      some (.entry key value, rest)
    | _ => none

/-- Whether nothing but a comment stands before the end of a line. -/
def atLineEnd (cs : List Char) : Bool :=
  (dropSpaces cs).head?.all fun c => isNewline c || c == '#'

/-- Reads statements on lines of their own. -/
def readStatements? : Nat → List Char → Option (List Statement)
  | 0, _ => none
  | fuel + 1, cs =>
    match dropLines false cs with
    | [] => some []
    | cs => do
      let (s, rest) ← readStatement? cs
      if atLineEnd rest then
        let statements ← readStatements? fuel rest
        some (s :: statements)
      else none

/-- The statements of a file, if it is well formed. -/
def parse? (t : Text) : Option (List Statement) := do
  let cs ← characters? t
  readStatements? (cs.length + 1) cs

end Keyplan.Toml
