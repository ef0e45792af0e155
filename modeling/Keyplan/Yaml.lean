import Keyplan.Description
import Keyplan.Yaml.Scalar

/-!
Documents of mappings and sequences as indented text. A nested collection is indented by two
columns, and a collection in a sequence starts right behind the dash.
-/

namespace Keyplan

/-- A document, or a part of one. Keys keep their order. -/
inductive Yaml where
  | text (s : String)
  | number (n : Int)
  /-- A key of a mapping that merges another mapping, where it is no key. -/
  | mergeSign
  | sequence (items : List Yaml)
  /-- A sequence on one line. -/
  | flow (items : List Yaml)
  | mapping (entries : List (String × Yaml))

namespace Yaml

def writeText (inFlow : Bool) (indent : Nat) (s : String) : List Char :=
  let cs := s.toList
  writeScalar (styleOf inFlow (readsAsString cs && !wasNoString cs) cs) indent cs

/-- The longest key that stands on the line of its value. -/
def maxSimpleKey : Nat := 128

/-- A key with the sign that separates it from its value. -/
def writeKey (indent : Nat) (key : String) : List Char :=
  let cs := key.toList
  let written := writeScalar (styleOf false (readsAsString cs) cs) indent cs
  if key.utf8ByteSize ≤ maxSimpleKey then written ++ [':']
  -- A longer key stands on lines of its own, with the colon below it.
  else '?' :: ' ' :: written ++ '\n' :: spaces indent ++ [':']

def endLine (cs : List Char) : List Char :=
  if cs.getLast?.any isBreak then cs else cs ++ ['\n']

/-- Parts on lines of their own, all starting at column `indent`; the first part stands where the
text has got to. -/
def stack (indent : Nat) (parts : List (List Char)) : List Char :=
  List.intercalate (spaces indent) (parts.map endLine)

mutual

def writeFlow : Yaml → List Char
  | text s => writeText true 0 s
  | number n => decimal n
  | mergeSign => "!!merge <<".toList
  | sequence items => '[' :: List.intercalate [',', ' '] (writeFlowItems items) ++ [']']
  | flow items => '[' :: List.intercalate [',', ' '] (writeFlowItems items) ++ [']']
  | mapping entries =>
    '\x7b' :: List.intercalate [',', ' '] (writeFlowEntries entries) ++ ['\x7d']

def writeFlowItems : List Yaml → List (List Char)
  | [] => []
  | item :: rest => writeFlow item :: writeFlowItems rest

def writeFlowEntries : List (String × Yaml) → List (List Char)
  | [] => []
  | (key, value) :: rest =>
    (key.toList ++ ':' :: ' ' :: writeFlow value) :: writeFlowEntries rest

end

/-- Whether a part takes lines of its own under its key. -/
def isNested : Yaml → Bool
  | sequence items => !items.isEmpty
  | mapping entries => !entries.isEmpty
  | _ => false

mutual

/-- A part that starts at column `indent`. -/
def write (indent : Nat) : Yaml → List Char
  | text s => writeText false indent s
  | number n => decimal n
  | mergeSign => writeFlow mergeSign
  | flow items => writeFlow (flow items)
  | sequence items =>
    if items.isEmpty then ['[', ']'] else stack indent (writeItems indent items)
  | mapping entries =>
    if entries.isEmpty then ['\x7b', '\x7d'] else stack indent (writeEntries indent entries)

def writeItems (indent : Nat) : List Yaml → List (List Char)
  | [] => []
  | item :: rest => ('-' :: ' ' :: write (indent + 2) item) :: writeItems indent rest

def writeEntries (indent : Nat) : List (String × Yaml) → List (List Char)
  | [] => []
  | (key, value) :: rest =>
    let below := isNested value && key.utf8ByteSize ≤ maxSimpleKey
    (writeKey indent key
      ++ (if below then '\n' :: spaces (indent + 2) else [' '])
      ++ write (indent + 2) value) :: writeEntries indent rest

end

def render (doc : Yaml) : List Char :=
  endLine (write 0 doc)

end Yaml

end Keyplan
