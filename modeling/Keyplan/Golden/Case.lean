import Keyplan.Compilation
import Keyplan.Text.Blank

/-!
Golden test cases: a description in words, a source, and what compiling the source must produce,
written in one file with delimiter lines between the three parts.
-/

namespace Keyplan.Golden

/-- What compiling the source of a case must produce. -/
inductive Expectation where
  /-- Exactly this artifact, final line ends left aside. -/
  | artifact (target : Target) (text : Text)
  /-- A failure whose message holds this text. -/
  | failure (part : Text)
  deriving DecidableEq, Repr

structure Case where
  description : Text
  source : Text
  expectation : Expectation
  deriving DecidableEq, Repr

inductive CaseFault where
  | overlongLine
  | partCount (found : Nat)
  | kindBeforeSource (kind : String)
  | noKind
  | unknownKind (kind : String)
  deriving DecidableEq, Repr

def CaseFault.message : CaseFault → String
  | overlongLine => "bufio.Scanner: token too long"
  | partCount found =>
    "too many or too few part delimiters: a test case consists of just three parts: "
      ++ s!"{found} parts found"
  | kindBeforeSource kind => "the delimiter before the source takes no kind: " ++ kind
  | noKind =>
    "the delimiter before the expected output needs a kind: firmware, diagram, format or error"
  | unknownKind kind => "unknown output kind: " ++ kind

/-! ## Delimiters -/

/-- The blanks a delimiter line may hold. -/
def isDelimiterBlank (g : Glyph) : Bool :=
  g ∈ [' ', '\t', '\n', '\x0c', '\r'].map Glyph.char

def letter? : Glyph → Option Char
  | .char c => if c.isLower then some c else none
  | .stray _ => none

/-- The kind a delimiter line names, which may be empty: at least three dashes and perhaps a word
of lower-case letters, with blanks around both. Other lines have none. -/
def delimiterKind? (line : Text) : Option String :=
  let dash := fun (g : Glyph) => g == .char '-'
  let line := line.dropWhile isDelimiterBlank
  let dashes := line.takeWhile dash
  let behind := (line.dropWhile dash).dropWhile isDelimiterBlank
  let word := behind.takeWhile fun g => (letter? g).isSome
  let rest := (behind.drop word.length).dropWhile isDelimiterBlank
  if 3 ≤ dashes.length ∧ rest = [] then some (String.ofList (word.filterMap letter?)) else none

/-! ## Parts -/

/-- A part of a test case: the kind its delimiter names, and its lines. -/
structure Part where
  kind : String
  lines : List Text
  deriving DecidableEq, Repr

def Part.text (p : Part) : Text :=
  Text.join [Text.lineFeed] p.lines

/-- The parts of lines; the first part is opened by `kind`. -/
def partsFrom (kind : String) : List Text → List Part
  | [] => [⟨kind, []⟩]
  | line :: rest =>
    match delimiterKind? line with
    | some next => ⟨kind, []⟩ :: partsFrom next rest
    | none =>
      match partsFrom kind rest with
      | [] => [⟨kind, [line]⟩]
      | p :: ps => { p with lines := line :: p.lines } :: ps

def parts (lines : List Text) : List Part :=
  partsFrom "" lines

/-! ## Cases -/

def dropFinalFeeds (t : Text) : Text :=
  t.dropRightWhile (· == Text.lineFeed)

/-- What the last part of a case expects. -/
def expectation (p : Part) : Except CaseFault Expectation :=
  let expected := dropFinalFeeds p.text
  if p.kind = "error" then .ok (.failure expected.trim)
  else if p.kind = "" then .error .noKind
  else match Target.ofName? p.kind with
    | some t => .ok (.artifact t expected)
    | none => .error (.unknownKind p.kind)

def ofParts : List Part → Except CaseFault Case
  | [description, source, expected] => do
    if source.kind ≠ "" then throw (.kindBeforeSource source.kind)
    let e ← expectation expected
    return { description := description.text.trim, source := source.text, expectation := e }
  | ps => .error (.partCount ps.length)

def Case.parse (t : Text) : Except CaseFault Case :=
  let reading := t.readLines
  -- An overlong line is a fault even where the parts before it are complete.
  if reading.overlong then .error .overlongLine else ofParts (parts reading.lines)

end Keyplan.Golden
