import Keyplan.Terminal.Mode
import Keyplan.Terminal.Pen

/-!
Sequences that a terminal obeys, read byte by byte. Of all of them two matter to a text that is
broken into lines, since they go on over a line end: a change of the pen, and a link.
-/

namespace Keyplan.Terminal

structure Link where
  parameters : List UInt8 := []
  target : List UInt8 := []
  deriving DecidableEq, Repr

/-- The command that opens a link; an empty link is the end of one. -/
def Link.sequence (l : Link) : Text :=
  let bytes := "\x1b]8;".toUTF8.toList ++ l.parameters ++ ";".toUTF8.toList ++ l.target ++ [7]
  Text.ofBytes bytes.toByteArray

/-- What a sequence is, by how it starts. -/
inductive SequenceKind where
  | control
  | device
  | command
  | other
  deriving DecidableEq, Repr

inductive SequencePart where
  | escape
  | marks
  | parameters
  | intermediates
  | string
  /-- A string behind an escape character, which may be the start of its end. -/
  | stringEscape
  deriving DecidableEq, Repr

structure Sequence where
  part : SequencePart
  kind : SequenceKind := .other
  /-- Whether it has a mark or an intermediate byte. -/
  isMarked : Bool := false
  parameters : List UInt8 := []
  data : List UInt8 := []
  final? : Option UInt8 := none
  deriving DecidableEq, Repr

inductive Request where
  | pen (ps : List Parameter)
  | link (l : Link)

inductive SequenceStep where
  | goesOn (s : Sequence)
  | ends (s : Sequence)
  /-- The sequence has ended in front of the byte. -/
  | hasEnded

namespace Sequence

/-! ## Reading -/

def openedBy? (b : UInt8) : Option Sequence :=
  let n := b.toNat
  if n = escapeByte then some { part := .escape }
  else if n = 0x9B then some { part := .marks, kind := .control }
  else if n = 0x90 then some { part := .marks, kind := .device }
  else if n = 0x9D then some { part := .string, kind := .command }
  else if n = 0x98 ∨ n = 0x9E ∨ n = 0x9F then some { part := .string }
  else none

/-- A byte behind an escape character and perhaps some intermediate bytes. What follows those is of
no particular kind. -/
def stepEscape (s : Sequence) (b : UInt8) : SequenceStep :=
  let n := b.toNat
  let kindOr := fun (k : SequenceKind) => if s.isMarked then SequenceKind.other else k
  if n = '['.toNat then .goesOn { part := .marks, kind := kindOr .control }
  else if n = 'P'.toNat then .goesOn { part := .marks, kind := kindOr .device }
  else if n = ']'.toNat then .goesOn { part := .string, kind := kindOr .command }
  else if n = 'X'.toNat ∨ n = '^'.toNat ∨ n = '_'.toNat then .goesOn { part := .string }
  else if between 0x20 0x2F n then .goesOn { s with isMarked := true }
  else if between 0x30 0x7E n then .ends s
  else .hasEnded

/-- A byte behind the parameters of a control sequence. -/
def stepIntermediates (s : Sequence) (b : UInt8) : SequenceStep :=
  let n := b.toNat
  if between 0x20 0x2F n then .goesOn { s with part := .intermediates, isMarked := true }
  else if between 0x40 0x7E n then
    if s.kind = .device then .goesOn { s with part := .string }
    else .ends { s with final? := some b }
  else .hasEnded

/-- A byte of the parameters of a control sequence. -/
def stepParameters (s : Sequence) (b : UInt8) : SequenceStep :=
  if between '0'.toNat ';'.toNat b.toNat then
    .goesOn { s with part := .parameters, parameters := s.parameters ++ [b] }
  else s.stepIntermediates b

/-- A byte of a string. -/
def stepString (s : Sequence) (b : UInt8) : SequenceStep :=
  let n := b.toNat
  if n = stringEnd ∨ (n = bell ∧ s.kind = .command) then .ends s
  else if isCancel n then .hasEnded
  else if n = escapeByte then .goesOn { s with part := .stringEscape }
  else .goesOn { s with data := s.data ++ [b] }

def step (s : Sequence) (b : UInt8) : SequenceStep :=
  match s.part with
  | .escape => s.stepEscape b
  | .marks =>
    if between '<'.toNat '?'.toNat b.toNat then .goesOn { s with isMarked := true }
    else s.stepParameters b
  | .parameters => s.stepParameters b
  | .intermediates => s.stepIntermediates b
  | .string => s.stepString b
  | .stringEscape => if b.toNat = '\\'.toNat then .ends s else .hasEnded

/-! ## Requests -/

def splitAt (isSeparator : UInt8 → Bool) : List UInt8 → List (List UInt8)
  | [] => [[]]
  | b :: rest =>
    if isSeparator b then [] :: splitAt isSeparator rest
    else match splitAt isSeparator rest with
      | [] => [[b]]
      | p :: ps => (b :: p) :: ps

def number (digits : List UInt8) : Nat :=
  digits.foldl (fun n b => 10 * n + (b.toNat - '0'.toNat)) 0

/-- The parameters that some bytes spell, with colons and semicolons between them. -/
def parametersOf (bytes : List UInt8) : List Parameter :=
  if bytes.isEmpty then []
  else
    let isColon := fun (b : UInt8) => b.toNat == ':'.toNat
    let separators := bytes.filter fun b => isColon b || b.toNat == ';'.toNat
    let pieces := splitAt (fun b => isColon b || b.toNat == ';'.toNat) bytes
    pieces.zipIdx.map fun (digits, i) =>
      ⟨if digits.isEmpty then none else some (number digits), separators[i]?.any isColon⟩

def commandNumber (data : List UInt8) : Nat :=
  number (data.takeWhile fun b => between '0'.toNat '9'.toNat b.toNat)

def linkCommand : Nat := 8

def linkOf? (data : List UInt8) : Option Link :=
  match splitAt (·.toNat == ';'.toNat) data with
  | [_, parameters, target] =>
    if commandNumber data = linkCommand then some ⟨parameters, target⟩ else none
  | _ => none

def request? (s : Sequence) : Option Request :=
  match s.kind with
  | .control =>
    if s.final? = some (UInt8.ofNat 'm'.toNat) ∧ !s.isMarked then
      some (.pen (parametersOf s.parameters))
    else none
  | .command => (linkOf? s.data).map .link
  | _ => none

/-! ## Bytes of a text -/

/-- Whether a byte belongs to the sequence that is read, or opens one. -/
def takes (current : Option Sequence) (b : UInt8) : Bool :=
  let belongs := fun (s : Sequence) => match s.step b with
    | .goesOn _ | .ends _ => true
    | .hasEnded => false
  (openedBy? b).isSome || current.any belongs

/-- The sequence that is read behind a byte, and what the sequences that ended ask for. -/
def read (current : Option Sequence) (b : UInt8) : Option Sequence × List Request :=
  match current with
  | none => (openedBy? b, [])
  | some s =>
    match s.step b with
    | .goesOn s => (some s, [])
    | .ends s => (none, s.request?.toList)
    | .hasEnded => (openedBy? b, s.request?.toList)

def readAll (current : Option Sequence) : List UInt8 → Option Sequence × List Request
  | [] => (current, [])
  | b :: rest =>
    let (s, first) := read current b
    let (s, more) := readAll s rest
    (s, first ++ more)

end Sequence

end Keyplan.Terminal
