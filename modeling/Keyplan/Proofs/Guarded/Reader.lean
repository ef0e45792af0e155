import Keyplan.Description.Parser
import Keyplan.Proofs.Guarded

/-!
# Guarded reading — a description read through a buffer of tokens

The reader hands out tokens one at a time and keeps those that were looked at in a buffer. Whatever
was taken last is remembered, and most readers take its place from there. A loop may go round once
for each lexeme that is left and once more, so a round that takes no token does not go unnoticed.
-/

namespace Keyplan.Guarded

open Keyplan.Parser

/-! ## Tokens -/

/-- What a lexeme means, its text cut at the quotes and the unit. -/
def kindOf? (l : Lexeme) : Guarded (Option Token.Kind) := do
  let chars := Token.charsOf l.text
  match l.kind with
  | .keyCount =>
    let digits ← slice chars 0 (chars.length - 1)
    return some (Token.numberKind .keyCount digits)
  | .spaceCount =>
    let digits ← slice chars 0 (chars.length - 1)
    return some (Token.numberKind .spaceCount digits)
  | .character =>
    let behind ← slice chars 1 chars.length
    return some (.character (behind.head?.getD '\uFFFD'))
  | .string =>
    let contents ← slice chars 1 (chars.length - 1)
    return some (.string (String.ofList (Token.unescape contents)))
  | _ => return Token.Kind.ofLexeme? l

/-- A reader in the middle of a text: the lexemes that are left and where the one before them ends,
the tokens that were looked at and not taken, and the token that was taken last. -/
structure Reader where
  pending : List (Lexeme × Position)
  stop : Position
  buffer : List Token := []
  last : Option Token := none

abbrev Reading (α : Type) := StateT Reader Guarded α

def tooLarge (t : Token) : Diagnostic where
  cause := .form .invalidNumber
  detail := t.lexeme.shown
  span := t.span

/-- The next token of a text, blanks and line ends passed over, and the lexemes behind it. -/
def nextToken : List (Lexeme × Position) → Position →
    Guarded (Token × List (Lexeme × Position) × Position)
  | [], stop => return (Token.endOfFile stop, [], stop)
  | (l, p) :: pending, _ => do
    match ← kindOf? l with
    | none => nextToken pending (l.endPosition p)
    | some kind =>
      let t : Token := ⟨kind, l.text, l.spanAt p⟩
      if kind = .oversized then
        throw (tooLarge t)
      return (t, pending, l.endPosition p)

namespace Reader

def start (source : Text) : Reader where
  pending := Lexeme.locate { row := 1, col := 1 } (Lexeme.scan source)
  stop := { row := 1, col := 1 }

/-- How often a loop may go round from here. -/
def rounds (r : Reader) : Nat :=
  r.buffer.length + r.pending.length + 1

end Reader

/-- Runs a loop that may go round as often as the reader allows. -/
def looping {α : Type} (loop : Nat → Reading α) : Reading α := do
  loop (← get).rounds

/-- Puts one more token into the buffer. The end of the file is put there as often as it takes for
the buffer to have a position `n`. -/
def fetch (n : Nat) (r : Reader) : Guarded Reader := do
  let (t, pending, stop) ← nextToken r.pending r.stop
  if t.kind = .invalid then
    throw (faultAt .invalidToken t)
  let copies := if t.kind = .endOfFile then n - r.buffer.length else 0
  return { r with
    pending := pending
    stop := stop
    buffer := r.buffer ++ t :: List.replicate copies t }

/-- Fills the buffer until it has a position `n`. -/
def fill (n : Nat) : Nat → Reading Unit
  | 0 => miss
  | fuel + 1 => do
    let r ← get
    if r.buffer.length ≤ n then
      set (← fetch n r)
      fill n fuel

/-- Looks at the token at position `n` of what is left. -/
def peek (n : Nat) : Reading Token := do
  fill n (n + 2)
  item (← get).buffer n

/-- Takes the next token; the end of the file stays where it is. -/
def next : Reading Token := do
  let t ← peek 0
  if t.kind ≠ .endOfFile then
    let r ← get
    let buffer ← slice r.buffer 1 r.buffer.length
    set { r with buffer := buffer }
  modify fun r => { r with last := some t }
  return t

def lastToken : Reading Token := do
  present (← get).last

def accept {α : Type} (want : Token → Option α) : Reading (Option α) := do
  match want (← peek 0) with
  | none => return none
  | some _ =>
    let _ ← next
    return want (← lastToken)

def expect {α : Type} (want : Token → Option α) (fault : SyntaxFault)
    (labels : List Label := []) : Reading α := do
  match ← accept want with
  | some a => return a
  | none => throw (faultAt fault (← peek 0) labels)

/-! ## Blocks in general -/

def openBlock (keyword : Span) : Reading Span :=
  expect (symbol? .openBrace) .noOpenBrace [blockLabel keyword]

def body {α : Type} (keyword : Span) (part : Reading α) : Nat → Reading (List α × Span)
  | 0 => miss
  | fuel + 1 => do
    match ← accept (symbol? .closeBrace) with
    | some close => return ([], close)
    | none =>
      let t ← peek 0
      if t.kind = .endOfFile then
        throw (faultIn .unclosedBlock t.span [blockLabel keyword])
      let first ← part
      let (others, close) ← body keyword part fuel
      return (first :: others, close)

def value : Reading (String × Span) := do
  let _ ← expect (symbol? .colon) .noColon
  expect string? .noString

/-- A semicolon; a missing one is missed behind the token that was taken last. -/
def semicolon : Reading Span := do
  match ← accept (symbol? .semicolon) with
  | some span => return span
  | none => throw (faultIn .noSemicolon (← lastToken).span.last)

def bracketed {α : Type} (want : Token → Option (α × Span)) (fault : SyntaxFault) :
    Reading (α × Span) := do
  let (a, _) ← expect want fault
  let close ← expect (symbol? .closeBracket) .unclosedBracket
  return (a, close)

/-! ## Rows -/

/-- Where a row of items stands whose semicolon is `t`: from its first item on. -/
def rowSpan {α : Type} (spanOf : α → Span) (items : List α) (t : Token) : Guarded Span := do
  if items.length = 0 then
    throw (faultIn .emptyRow t.span)
  let first ← item items 0
  return (spanOf first).join t.span

/-- A row of items that stops short at `t`: its semicolon is missing behind the last item. -/
def cutShort {α β : Type} (spanOf : α → Span) (fault : SyntaxFault) (items : List α) (t : Token) :
    Guarded β := do
  if items.length = 0 then
    throw (faultAt fault t)
  let last ← item items (items.length - 1)
  throw (faultIn .noSemicolon (spanOf last).last)

/-- The rest of a layout row behind the items found so far. -/
def layoutItems (items : List LayoutItem) : Nat → Reading LayoutRow
  | 0 => miss
  | fuel + 1 => do
    let t ← peek 0
    match t.kind with
    | .keyCount n =>
      let _ ← next
      layoutItems (items ++ [⟨.keys n, t.span⟩]) fuel
    | .spaceCount n =>
      let _ ← next
      layoutItems (items ++ [⟨.spaces n, t.span⟩]) fuel
    | .symbol .openBracket =>
      let _ ← next
      let (n, close) ← bracketed integer? .noRemapColumn
      layoutItems (items ++ [⟨.remap n, t.span.join close⟩]) fuel
    | .symbol .semicolon =>
      let span ← rowSpan LayoutItem.span items t
      let _ ← next
      return { items := items, semicolon := t.span, span := span }
    | .symbol .closeBrace => cutShort LayoutItem.span .invalidLayoutItem items t
    | .endOfFile => cutShort LayoutItem.span .invalidLayoutItem items t
    | _ => throw (faultAt .invalidLayoutItem t)

def layoutBlock (keyword : Span) : Reading LayoutBlock := do
  let _ ← openBlock keyword
  let (rows, close) ← looping (body keyword (looping (layoutItems [])))
  return { rows := rows, span := keyword.join close }

/-! ## Options and key declarations -/

def optionLine : Reading OptionLine := do
  let (name, nameSpan) ← expect identifier? .noOptionName
  let (contents, valueSpan) ← value
  let semi ← semicolon
  return { name := name, nameSpan := nameSpan, value := contents, valueSpan := valueSpan,
           span := nameSpan.join semi }

def optionsBlock (keyword : Span) : Reading OptionsBlock := do
  let (backend, backendSpan) ← expect identifier? .noBackend
  let _ ← openBlock keyword
  let (options, close) ← looping (body keyword optionLine)
  return { backend := backend, backendSpan := backendSpan, options := options,
           span := keyword.join close }

def keyOutput : Reading KeyOutput := do
  let word ← expect out? .noOut
  let (backend, backendSpan) ← expect identifier? .noBackend
  let (contents, _) ← value
  let semi ← semicolon
  return { backend := backend, backendSpan := backendSpan, text := contents,
           span := word.join semi }

def keyDeclaration (keyword : Span) : Reading KeyDeclaration := do
  let (name, nameSpan) ← expect identifier? .noKeyName
  let _ ← openBlock keyword
  let (outputs, close) ← looping (body keyword keyOutput)
  return { name := name, nameSpan := nameSpan, outputs := outputs, span := keyword.join close }

/-! ## Layers -/

def plainKey : Reading PlainKey := do
  let t ← peek 0
  match t.kind with
  | .identifier name =>
    let _ ← next
    return ⟨.named name, t.span⟩
  | .character c =>
    let _ ← next
    return ⟨.char c (some '\''), t.span⟩
  | .string contents =>
    let _ ← next
    let chars := contents.toList
    if chars.length ≠ 1 then
      throw (faultAt .charLength t)
    let c ← item chars 0
    return ⟨.char c (some '\"'), t.span⟩
  | .symbol .openBracket =>
    let _ ← next
    let (name, close) ← bracketed identifier? .noLayerName
    return ⟨.layer name, t.span.join close⟩
  | _ => throw (faultAt .invalidKey t)

/-- `[N]` right behind a held key is its timeout: two tokens have to be looked at. -/
def timeout : Reading (Option (Nat × Span)) := do
  let t ← peek 0
  if t.kind = .symbol .openBracket then
    match integer? (← peek 1) with
    | none => return none
    | some _ =>
      let _ ← next
      let n := ((integer? (← next)).map (·.1)).getD 0
      let close ← expect (symbol? .closeBracket) .unclosedBracket
      return some (n, close)
  else
    return none

def key : Reading Key := do
  let tap ← plainKey
  match ← accept holdStyle? with
  | none => return { tap := tap, span := tap.span }
  | some style =>
    let held ← plainKey
    let span := tap.span.join held.span
    match ← timeout with
    | none => return { tap := tap, hold := some { key := held, style := style }, span := span }
    | some (n, close) =>
      return { tap := tap, hold := some { key := held, style := style, timeout := n },
               span := span.join close }

def chord (start : Span) : Reading Chord := do
  let k ← key
  let close ← expect (symbol? .chordClose) .unclosedChord [⟨start, "the chord starts here"⟩]
  return { key := k, span := start.join close }

def rowItems (items : List RowItem) : Nat → Reading LayerRow
  | 0 => miss
  | fuel + 1 => do
    let t ← peek 0
    match t.kind with
    | .symbol .semicolon =>
      let span ← rowSpan RowItem.span items t
      let _ ← next
      return { items := items, semicolon := t.span, span := span }
    | .symbol .closeBrace => cutShort RowItem.span .invalidKey items t
    | .endOfFile => cutShort RowItem.span .invalidKey items t
    | .symbol .chordOpen =>
      let _ ← next
      let c ← chord t.span
      rowItems (items ++ [.chord c]) fuel
    | _ =>
      let k ← key
      rowItems (items ++ [.key k]) fuel

def layerBlock (keyword : Span) : Reading LayerBlock := do
  let (name, nameSpan) ← expect identifier? .noLayerName
  let _ ← openBlock keyword
  let (rows, close) ← looping (body keyword (looping (rowItems [])))
  return { name := name, nameSpan := nameSpan, rows := rows, span := keyword.join close }

/-! ## Whole descriptions -/

def block (t : Token) : Reading Block := do
  match t.kind with
  | .identifier "layout" =>
    let _ ← next
    return .layout (← layoutBlock t.span)
  | .identifier "options" =>
    let _ ← next
    return .options (← optionsBlock t.span)
  | .identifier "key" =>
    let _ ← next
    return .key (← keyDeclaration t.span)
  | .identifier "layer" =>
    let _ ← next
    return .layer (← layerBlock t.span)
  | _ => throw (faultAt .unexpectedTopLevel t)

/-- The blocks of a file with the places of the tokens they end with. -/
def blocks (first : Option Span) : Nat → Reading (List (Block × Span))
  | 0 => miss
  | fuel + 1 => do
    let t ← peek 0
    if t.kind = .endOfFile then
      return []
    let b ← block t
    let first' ← plain (checkLayout first b)
    let close := (← lastToken).span
    let others ← blocks first' fuel
    return (b, close) :: others

def description : Reading Description := do
  let found ← looping (blocks none)
  match layoutOf? found with
  | some layout => return assemble layout found
  | none => throw (faultIn .noLayout (← peek 0).span)

def parse (source : Text) : Guarded Description := do
  let (d, _) ← description.run (.start source)
  return d

end Keyplan.Guarded
