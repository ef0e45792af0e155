import Keyplan.Text

/-!
Cutting a text into lexemes. Every lexeme is the longest one that starts where the previous one
ended. Where none starts, or where a literal is not closed, the glyphs up to and including the
first one that cannot be read form an invalid lexeme; invalid lexemes that touch are one lexeme.
-/

namespace Keyplan

/-- The punctuation of a description. -/
inductive Symbol where
  | openBrace
  | closeBrace
  | openBracket
  | closeBracket
  | semicolon
  | colon
  | atSign
  | atTilde
  | chordOpen
  | chordClose
  deriving DecidableEq, Repr

def Symbol.text : Symbol → String
  | openBrace => "\x7b"
  | closeBrace => "\x7d"
  | openBracket => "["
  | closeBracket => "]"
  | semicolon => ";"
  | colon => ":"
  | atSign => "@"
  | atTilde => "@~"
  | chordOpen => ">"
  | chordClose => "<"

def Symbol.ofChar? : Char → Option Symbol
  | '\x7b' => some openBrace
  | '\x7d' => some closeBrace
  | '[' => some openBracket
  | ']' => some closeBracket
  | ';' => some semicolon
  | ':' => some colon
  | '@' => some atSign
  | '>' => some chordOpen
  | '<' => some chordClose
  | _ => none

inductive LexClass where
  | blank
  | newline
  | identifier
  | keyCount
  | spaceCount
  | integer
  | character
  | string
  | symbol (s : Symbol)
  | invalid
  deriving DecidableEq, Repr

structure Lexeme where
  kind : LexClass
  text : Text
  deriving DecidableEq, Repr

namespace Lexeme

def isChar (p : Char → Bool) : Glyph → Bool
  | .char c => p c
  | .stray _ => false

def isBlank (c : Char) : Bool :=
  c == ' ' || c == '\t'

def isLineEnd (c : Char) : Bool :=
  c == '\n' || c == '\r'

def isDigit (c : Char) : Bool :=
  '0' ≤ c && c ≤ '9'

def isNameStart (c : Char) : Bool :=
  ('A' ≤ c && c ≤ 'Z') || ('a' ≤ c && c ≤ 'z') || c == '_'

def isNamePart (c : Char) : Bool :=
  isNameStart c || isDigit c

/-- The length of the longest prefix of characters with a property. -/
def runLength (p : Char → Bool) (t : Text) : Nat :=
  (t.takeWhile (isChar p)).length

/-! ## Broken encodings

Inside a literal every character is wanted, so the bytes of an encoding that is cut short are
taken together with the glyph that cuts it short. -/

/-- The ranges of the bytes that complete an encoding after its lead byte. -/
def continuation (lead : UInt8) : List (Nat × Nat) :=
  let b := lead.toNat
  if 0xC2 ≤ b ∧ b ≤ 0xDF then [(0x80, 0xBF)]
  else if b = 0xE0 then [(0xA0, 0xBF), (0x80, 0xBF)]
  else if b = 0xED then [(0x80, 0x9F), (0x80, 0xBF)]
  else if 0xE1 ≤ b ∧ b ≤ 0xEF then [(0x80, 0xBF), (0x80, 0xBF)]
  else if b = 0xF0 then [(0x90, 0xBF), (0x80, 0xBF), (0x80, 0xBF)]
  else if 0xF1 ≤ b ∧ b ≤ 0xF3 then [(0x80, 0xBF), (0x80, 0xBF), (0x80, 0xBF)]
  else if b = 0xF4 then [(0x80, 0x8F), (0x80, 0xBF), (0x80, 0xBF)]
  else []

/-- How many stray bytes at the head of a text lie in the given ranges, one after the other. -/
def continuedLength : List (Nat × Nat) → Text → Nat
  | (lo, hi) :: ranges, .stray b :: rest =>
    if lo ≤ b.toNat ∧ b.toNat ≤ hi then continuedLength ranges rest + 1 else 0
  | _, _ => 0

/-- How many stray bytes at the head of a text begin an encoding. -/
def brokenLength : Text → Nat
  | .stray b :: rest =>
    match continuation b with
    | [] => 0
    | ranges => continuedLength ranges rest + 1
  | _ => 0

/-- How many glyphs are read before reading fails, the one it fails at included. -/
def failedLength (t : Text) : Nat :=
  min (brokenLength t + 1) t.length

/-! ## Literals -/

/-- The rest of a character literal after its opening quote: one character and a closing quote. -/
def characterTail : Text → LexClass × Nat
  | .char c :: rest =>
    if isLineEnd c then (.invalid, 1)
    else match rest with
      | .char '\'' :: _ => (.character, 2)
      | [] => (.invalid, 1)
      -- The glyph in place of the closing quote is part of the fault.
      | _ :: _ => (.invalid, 2)
  | t => (.invalid, failedLength t)

/-- The rest of a string literal; `escaped` after a backslash. -/
def stringTail (escaped : Bool) : Text → LexClass × Nat
  | .char c :: rest =>
    if isLineEnd c then (.invalid, 1)
    else if !escaped && c == '\"' then (.string, 1)
    else
      -- A backslash that is escaped itself escapes nothing.
      let (kind, n) := stringTail (!escaped && c == '\\') rest
      (kind, n + 1)
  | [] => (.invalid, 0)
  | .stray b :: rest => (.invalid, failedLength (.stray b :: rest))

/-! ## All lexemes -/

/-- The class of the lexeme that starts with glyph `g`, and how many glyphs of `rest` it takes. -/
def classify (g : Glyph) (rest : Text) : LexClass × Nat :=
  match g with
  | .stray _ => (.invalid, 0)
  | .char c =>
    if isBlank c then (.blank, runLength isBlank rest)
    else if c = '\n' then (.newline, 0)
    else if c = '\r' then (.newline, if rest.head? = some (.char '\n') then 1 else 0)
    else if isNameStart c then (.identifier, runLength isNamePart rest)
    else if isDigit c then
      let n := runLength isDigit rest
      match rest[n]? with
      | some (.char 'k') => (.keyCount, n + 1)
      | some (.char 's') => (.spaceCount, n + 1)
      | _ => (.integer, n)
    else if c = '\'' then characterTail rest
    else if c = '\"' then stringTail false rest
    -- before the single characters, as the longest lexeme wins
    else if c = '@' ∧ rest.head? = some (.char '~') then (.symbol .atTilde, 1)
    else match Symbol.ofChar? c with
      | some s => (.symbol s, 0)
      | none => (.invalid, 0)

/-- The lexemes of a text, one after the other. -/
def cut : Text → List Lexeme
  | [] => []
  | g :: rest =>
    let (kind, n) := classify g rest
    ⟨kind, g :: rest.take n⟩ :: cut (rest.drop n)
termination_by t => t.length
decreasing_by
  simp only [List.length_drop, List.length_cons]
  omega

/-- Joins invalid lexemes that touch. -/
def mergeInvalid : List Lexeme → List Lexeme
  | [] => []
  | l :: rest =>
    match mergeInvalid rest with
    | [] => [l]
    | m :: ms =>
      if l.kind = .invalid ∧ m.kind = .invalid then ⟨.invalid, l.text ++ m.text⟩ :: ms
      else l :: m :: ms

def scan (t : Text) : List Lexeme :=
  mergeInvalid (cut t)

/-! ## Nothing is lost -/

/-- The lexemes of a text, one after the other, are the text. -/
theorem flatMap_text_cut (t : Text) : (cut t).flatMap (·.text) = t := by
  fun_induction cut t with
  | case1 => rfl
  | case2 g rest kind n _ ih =>
    rw [List.flatMap_cons, ih, List.cons_append, List.take_append_drop]

/-- Joining invalid lexemes keeps the text. -/
theorem flatMap_text_mergeInvalid (ls : List Lexeme) :
    (mergeInvalid ls).flatMap (·.text) = ls.flatMap (·.text) := by
  induction ls with
  | nil => rfl
  | cons l rest ih =>
    rw [List.flatMap_cons, ← ih, mergeInvalid]
    split
    · rename_i h
      rw [h]
      rfl
    · rename_i m ms h
      rw [h, List.flatMap_cons]
      split
      · rw [List.flatMap_cons, List.append_assoc]
      · rw [List.flatMap_cons, List.flatMap_cons]

theorem flatMap_text_scan (t : Text) : (scan t).flatMap (·.text) = t := by
  rw [scan, flatMap_text_mergeInvalid, flatMap_text_cut]

theorem text_ne_nil_of_mem_cut (t : Text) : ∀ l ∈ cut t, l.text ≠ [] := by
  fun_induction cut t with
  | case1 =>
    intro l hl
    cases hl
  | case2 g rest kind n _ ih =>
    intro l hl
    rcases List.mem_cons.mp hl with rfl | hl
    · exact List.cons_ne_nil _ _
    · exact ih l hl

end Lexeme

end Keyplan
