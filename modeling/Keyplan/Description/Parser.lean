import Keyplan.Description
import Keyplan.Token.Lexer

/-!
Reading a description from its tokens. A reader looks at one token at a time, so the first fault in
reading order is the one that is reported; a token that cannot be read is a fault of its own when
it is looked at. Every reader leaves fewer tokens than it was given, which is why reading ends.
-/

namespace Keyplan.Parser

/-- What a reader leaves of the tokens `ts`: fewer than it was given. -/
abbrev Rest (ts : List Token) := { rest : List Token // rest.length < ts.length }

/-- A reader's outcome on the tokens `ts`. -/
abbrev Outcome (α : Type) (ts : List Token) := Except Diagnostic (α × Rest ts)

/-- What two readers leave, one after the other. -/
def Rest.after {ts : List Token} (r : Rest ts) (s : Rest r.1) : Rest ts :=
  ⟨s.1, Nat.lt_trans s.2 r.2⟩

/-- What a reader of `rest` leaves of `t :: rest`. -/
def Rest.behind {t : Token} {rest : List Token} (s : Rest rest) : Rest (t :: rest) :=
  ⟨s.1, Nat.lt_succ_of_lt s.2⟩

/-- What is left behind the first token. -/
def Rest.tail {t : Token} {rest : List Token} : Rest (t :: rest) :=
  ⟨rest, Nat.lt_succ_self _⟩

/-! ## Looking at tokens -/

/-- A fault at a token, which is named in the detail. -/
def faultAt (fault : SyntaxFault) (t : Token) (labels : List Label := []) : Diagnostic where
  cause := .form fault
  detail := t.description
  span := t.span
  labels := labels

def faultIn (fault : SyntaxFault) (span : Span) (labels : List Label := []) : Diagnostic where
  cause := .form fault
  span := span
  labels := labels

/-- Looks at a token; one that cannot be read is a fault. -/
def look (t : Token) : Except Diagnostic Token :=
  match t.kind with
  | .invalid => .error (faultAt .invalidToken t)
  | .oversized => .error
      { cause := .form .invalidNumber, detail := t.lexeme.shown, span := t.span }
  | _ => .ok t

/-- Looks at the next token; behind the last one stands the end of the file. -/
def peek (stop : Position) : List Token → Except Diagnostic Token
  | [] => .ok (Token.endOfFile stop)
  | t :: _ => look t

def accept {α : Type} (want : Token → Option α) :
    (ts : List Token) → Except Diagnostic (Option (α × Rest ts))
  | [] => .ok none
  | t :: _ => do
    let t' ← look t
    return (want t').map fun a => (a, Rest.tail)

def expect {α : Type} (stop : Position) (want : Token → Option α) (fault : SyntaxFault)
    (ts : List Token) (labels : List Label := []) : Outcome α ts := do
  match ← accept want ts with
  | some found => return found
  | none =>
    let t ← peek stop ts
    throw (faultAt fault t labels)

def identifier? (t : Token) : Option (String × Span) :=
  match t.kind with
  | .identifier name => some (name, t.span)
  | _ => none

def integer? (t : Token) : Option (Nat × Span) :=
  match t.kind with
  | .integer n => some (n, t.span)
  | _ => none

def string? (t : Token) : Option (String × Span) :=
  match t.kind with
  | .string contents => some (contents, t.span)
  | _ => none

def symbol? (s : Symbol) (t : Token) : Option Span :=
  if t.kind = .symbol s then some t.span else none

def holdStyle? (t : Token) : Option HoldStyle :=
  match t.kind with
  | .symbol .atSign => some .permissive
  | .symbol .atTilde => some .onOtherKeyPress
  | _ => none

/-! ## Blocks in general -/

def blockLabel (keyword : Span) : Label :=
  ⟨keyword, "the block starts here"⟩

def openBlock (stop : Position) (keyword : Span) (ts : List Token) : Outcome Span ts :=
  expect stop (symbol? .openBrace) .noOpenBrace ts [blockLabel keyword]

/-- The parts of a block up to its closing brace, and the place of that brace. -/
def body {α : Type} (stop : Position) (keyword : Span) (part : (ts : List Token) → Outcome α ts)
    (ts : List Token) : Outcome (List α × Span) ts := do
  match ← accept (symbol? .closeBrace) ts with
  | some (close, rest) => return (([], close), rest)
  | none =>
    let t ← peek stop ts
    -- The end of the file is no bad part: what is wrong is the block.
    if t.kind = .endOfFile then
      throw (faultIn .unclosedBlock t.span [blockLabel keyword])
    let (first, r) ← part ts
    let ((others, close), r') ← body stop keyword part r.1
    return ((first :: others, close), r.after r')
termination_by ts.length
decreasing_by exact r.2

/-- `: "value"`. -/
def value (stop : Position) (ts : List Token) : Outcome (String × Span) ts := do
  let (_, r₁) ← expect stop (symbol? .colon) .noColon ts
  let (contents, r₂) ← expect stop string? .noString r₁.1
  return (contents, r₁.after r₂)

def semicolon (previous : Span) (ts : List Token) : Outcome Span ts := do
  match ← accept (symbol? .semicolon) ts with
  | some found => return found
  -- The fault is the gap behind the value, whatever stands there instead.
  | none => throw (faultIn .noSemicolon previous.last)

/-- A number or a name in brackets, after the opening one: its value and the place of the closing
bracket. -/
def bracketed {α : Type} (stop : Position) (want : Token → Option (α × Span))
    (fault : SyntaxFault) (ts : List Token) : Outcome (α × Span) ts := do
  let ((a, _), r₁) ← expect stop want fault ts
  let (close, r₂) ← expect stop (symbol? .closeBracket) .unclosedBracket r₁.1
  return ((a, close), r₁.after r₂)

/-! ## Layout -/

/-- Why a row cannot end here: it is empty, or its semicolon is missing behind the last item. -/
def unfinishedRow (emptyFault : SyntaxFault) (last : Option Span) (t : Token) : Diagnostic :=
  match last with
  | none => faultAt emptyFault t
  | some span => faultIn .noSemicolon span.last

def rowEnd (last : Option Span) (t : Token) : Except Diagnostic Span :=
  if last.isNone then .error (faultIn .emptyRow t.span) else .ok t.span

/-- The items of a layout row behind the item at `last`, and the place of the semicolon. -/
def layoutItems (stop : Position) (last : Option Span) :
    (ts : List Token) → Outcome (List LayoutItem × Span) ts
  | [] => .error (unfinishedRow .invalidLayoutItem last (Token.endOfFile stop))
  | t :: rest => do
    let t' ← look t
    match t'.kind with
    | .keyCount n =>
      let ((items, semi), r) ← layoutItems stop (some t.span) rest
      return ((⟨.keys n, t.span⟩ :: items, semi), r.behind)
    | .spaceCount n =>
      let ((items, semi), r) ← layoutItems stop (some t.span) rest
      return ((⟨.spaces n, t.span⟩ :: items, semi), r.behind)
    | .symbol .openBracket =>
      let ((n, close), r₁) ← bracketed stop integer? .noRemapColumn rest
      let span := t.span.join close
      let ((items, semi), r₂) ← layoutItems stop (some span) r₁.1
      return ((⟨.remap n, span⟩ :: items, semi), (r₁.after r₂).behind)
    | .symbol .semicolon =>
      let semi ← rowEnd last t
      return (([], semi), Rest.tail)
    | .symbol .closeBrace => throw (unfinishedRow .invalidLayoutItem last t)
    | _ => throw (faultAt .invalidLayoutItem t)
termination_by ts => ts.length
decreasing_by
  · simp
  · simp
  · have := r₁.2
    simp
    omega

def layoutRow (stop : Position) (ts : List Token) : Outcome LayoutRow ts := do
  let ((items, semi), r) ← layoutItems stop none ts
  let first := (items.head?.map (·.span)).getD {}
  return ({ items := items, semicolon := semi, span := first.join semi }, r)

/-- A layout block after its keyword, and the place of its closing brace. -/
def layoutBlock (stop : Position) (keyword : Span) (ts : List Token) :
    Outcome (LayoutBlock × Span) ts := do
  let (_, r₁) ← openBlock stop keyword ts
  let ((rows, close), r₂) ← body stop keyword (layoutRow stop) r₁.1
  return (({ rows := rows, span := keyword.join close }, close), r₁.after r₂)

/-! ## Options and key declarations -/

def optionLine (stop : Position) (ts : List Token) : Outcome OptionLine ts := do
  let ((name, nameSpan), r₁) ← expect stop identifier? .noOptionName ts
  let ((contents, valueSpan), r₂) ← value stop r₁.1
  let (semi, r₃) ← semicolon valueSpan r₂.1
  let line :=
    { name := name, nameSpan := nameSpan, value := contents, valueSpan := valueSpan,
      span := nameSpan.join semi }
  return (line, r₁.after (r₂.after r₃))

def optionsBlock (stop : Position) (keyword : Span) (ts : List Token) :
    Outcome (OptionsBlock × Span) ts := do
  let ((backend, backendSpan), r₁) ← expect stop identifier? .noBackend ts
  let (_, r₂) ← openBlock stop keyword r₁.1
  let ((options, close), r₃) ← body stop keyword (optionLine stop) r₂.1
  let block :=
    { backend := backend, backendSpan := backendSpan, options := options,
      span := keyword.join close }
  return ((block, close), r₁.after (r₂.after r₃))

def out? (t : Token) : Option Span :=
  if t.kind = .identifier "out" then some t.span else none

def keyOutput (stop : Position) (ts : List Token) : Outcome KeyOutput ts := do
  let (word, r₁) ← expect stop out? .noOut ts
  let ((backend, backendSpan), r₂) ← expect stop identifier? .noBackend r₁.1
  let ((contents, valueSpan), r₃) ← value stop r₂.1
  let (semi, r₄) ← semicolon valueSpan r₃.1
  let output :=
    { backend := backend, backendSpan := backendSpan, text := contents, span := word.join semi }
  return (output, r₁.after (r₂.after (r₃.after r₄)))

def keyDeclaration (stop : Position) (keyword : Span) (ts : List Token) :
    Outcome (KeyDeclaration × Span) ts := do
  let ((name, nameSpan), r₁) ← expect stop identifier? .noKeyName ts
  let (_, r₂) ← openBlock stop keyword r₁.1
  let ((outputs, close), r₃) ← body stop keyword (keyOutput stop) r₂.1
  let decl := { name := name, nameSpan := nameSpan, outputs := outputs, span := keyword.join close }
  return ((decl, close), r₁.after (r₂.after r₃))

/-! ## Layers -/

def plainKey (stop : Position) : (ts : List Token) → Outcome PlainKey ts
  | [] => .error (faultAt .invalidKey (Token.endOfFile stop))
  | t :: rest => do
    let t' ← look t
    match t'.kind with
    | .identifier name => return (⟨.named name, t.span⟩, Rest.tail)
    | .character c => return (⟨.char c (some '\''), t.span⟩, Rest.tail)
    | .string contents =>
      match contents.toList with
      | [c] => return (⟨.char c (some '\"'), t.span⟩, Rest.tail)
      | _ => throw (faultAt .charLength t)
    | .symbol .openBracket =>
      let ((name, close), r) ← bracketed stop identifier? .noLayerName rest
      return (⟨.layer name, t.span.join close⟩, r.behind)
    | _ => throw (faultAt .invalidKey t)

/-- `[N]` right behind a held key is its timeout; `[name]` would be the next key. -/
def timeout (stop : Position) :
    (ts : List Token) → Except Diagnostic (Option ((Nat × Span) × Rest ts))
  | [] => .ok none
  | t :: rest => do
    let t' ← look t
    if t'.kind = .symbol .openBracket then
      match ← accept integer? rest with
      -- The bracket is given back: it opens the key that comes next.
      | none => return none
      | some ((n, _), r₁) =>
        let (close, r₂) ← expect stop (symbol? .closeBracket) .unclosedBracket r₁.1
        return some ((n, close), (r₁.after r₂).behind)
    else
      return none

def key (stop : Position) (ts : List Token) : Outcome Key ts := do
  let (tap, r₁) ← plainKey stop ts
  match ← accept holdStyle? r₁.1 with
  | none => return ({ tap := tap, span := tap.span }, r₁)
  | some (style, r₂) =>
    let (held, r₃) ← plainKey stop r₂.1
    let span := tap.span.join held.span
    match ← timeout stop r₃.1 with
    | none =>
      return ({ tap := tap, hold := some { key := held, style := style }, span := span },
        r₁.after (r₂.after r₃))
    | some ((n, close), r₄) =>
      return ({ tap := tap, hold := some { key := held, style := style, timeout := n },
                span := span.join close },
        r₁.after (r₂.after (r₃.after r₄)))

/-- A chord after its opening symbol, which stands at `start`. -/
def chord (stop : Position) (start : Span) (ts : List Token) : Outcome Chord ts := do
  let (k, r₁) ← key stop ts
  let (close, r₂) ← expect stop (symbol? .chordClose) .unclosedChord r₁.1
    [⟨start, "the chord starts here"⟩]
  return ({ key := k, span := start.join close }, r₁.after r₂)

/-- The items of a layer row behind the item at `last`, and the place of the semicolon. -/
def rowItems (stop : Position) (last : Option Span) :
    (ts : List Token) → Outcome (List RowItem × Span) ts
  | [] => .error (unfinishedRow .invalidKey last (Token.endOfFile stop))
  | t :: rest => do
    let t' ← look t
    match t'.kind with
    | .symbol .semicolon =>
      let semi ← rowEnd last t
      return (([], semi), Rest.tail)
    | .symbol .closeBrace => throw (unfinishedRow .invalidKey last t)
    | .symbol .chordOpen =>
      let (c, r₁) ← chord stop t.span rest
      let ((items, semi), r₂) ← rowItems stop (some c.span) r₁.1
      return ((.chord c :: items, semi), (r₁.after r₂).behind)
    -- Anything else is left to the reader of keys, which says what is wrong with it.
    | _ =>
      let (k, r₁) ← key stop (t :: rest)
      let ((items, semi), r₂) ← rowItems stop (some k.span) r₁.1
      return ((.key k :: items, semi), r₁.after r₂)
termination_by ts => ts.length
decreasing_by
  · have := r₁.2
    simp
    omega
  · exact r₁.2

def layerRow (stop : Position) (ts : List Token) : Outcome LayerRow ts := do
  let ((items, semi), r) ← rowItems stop none ts
  let first := (items.head?.map (·.span)).getD {}
  return ({ items := items, semicolon := semi, span := first.join semi }, r)

def layerBlock (stop : Position) (keyword : Span) (ts : List Token) :
    Outcome (LayerBlock × Span) ts := do
  let ((name, nameSpan), r₁) ← expect stop identifier? .noLayerName ts
  let (_, r₂) ← openBlock stop keyword r₁.1
  let ((rows, close), r₃) ← body stop keyword (layerRow stop) r₂.1
  let block := { name := name, nameSpan := nameSpan, rows := rows, span := keyword.join close }
  return ((block, close), r₁.after (r₂.after r₃))

/-! ## Whole descriptions -/

inductive Block where
  | layout (b : LayoutBlock)
  | options (b : OptionsBlock)
  | key (d : KeyDeclaration)
  | layer (b : LayerBlock)

def block (stop : Position) : (ts : List Token) → Outcome (Block × Span) ts
  | [] => .error (faultAt .unexpectedTopLevel (Token.endOfFile stop))
  | t :: rest => do
    let t' ← look t
    match t'.kind with
    | .identifier "layout" =>
      let ((b, close), r) ← layoutBlock stop t.span rest
      return ((.layout b, close), r.behind)
    | .identifier "options" =>
      let ((b, close), r) ← optionsBlock stop t.span rest
      return ((.options b, close), r.behind)
    | .identifier "key" =>
      let ((d, close), r) ← keyDeclaration stop t.span rest
      return ((.key d, close), r.behind)
    | .identifier "layer" =>
      let ((b, close), r) ← layerBlock stop t.span rest
      return ((.layer b, close), r.behind)
    | _ => throw (faultAt .unexpectedTopLevel t)

/-- A second layout block is a fault; `first` is the place of the first one, if there was one. -/
def checkLayout (first : Option Span) : Block → Except Diagnostic (Option Span)
  | .layout b =>
    match first with
    | none => .ok (some b.span)
    | some span => .error
        (faultIn .duplicateLayout b.span [⟨span, "the first layout block is here"⟩])
  | _ => .ok first

/-- The blocks of a file with the places of their closing braces; `first` is the place of the
layout block before them, if there was one. -/
def blocks (stop : Position) (first : Option Span) (ts : List Token) :
    Except Diagnostic (List (Block × Span)) :=
  match ts with
  | [] => .ok []
  | t :: rest => do
    let ((b, close), r) ← block stop (t :: rest)
    let first' ← checkLayout first b
    let others ← blocks stop first' r.1
    return (b, close) :: others
termination_by ts.length
decreasing_by exact r.2

/-- The description made of a layout block and of the other blocks, regrouped by kind. -/
def assemble (layout : LayoutBlock) (found : List (Block × Span)) : Description where
  layout := layout
  options := found.filterMap fun | (.options b, _) => some b | _ => none
  keys := found.filterMap fun | (.key d, _) => some d | _ => none
  layers := found.filterMap fun | (.layer b, _) => some b | _ => none
  -- from the first closing brace to the last one
  span := (found.map (·.2)).foldl Span.join {}

def layoutOf? (found : List (Block × Span)) : Option LayoutBlock :=
  found.findSome? fun | (.layout b, _) => some b | _ => none

def description (s : TokenStream) : Except Diagnostic Description := do
  let found ← blocks s.stop none s.tokens
  match layoutOf? found with
  | some layout => return assemble layout found
  | none => throw (faultIn .noLayout (.point s.stop))

end Keyplan.Parser

/-- Reads a keyboard description; the first fault stops the reading. -/
def Keyplan.Description.parse (source : Keyplan.Text) :
    Except Keyplan.Diagnostic Keyplan.Description :=
  Keyplan.Parser.description (Keyplan.TokenStream.ofText source)
