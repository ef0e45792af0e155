import Keyplan.Text

/-!
How a terminal reads bytes: most are shown, control characters are carried out, and an escape
character opens a sequence that is not shown. A terminal is always in one mode, and a byte takes it
to the next one.
-/

namespace Keyplan.Terminal

/-- What a terminal is reading. -/
inductive Mode where
  /-- Text that is shown. -/
  | ground
  /-- What follows an escape character. -/
  | escape
  | escapeIntermediate
  /-- A control sequence, such as a change of colour. -/
  | control
  | controlIntermediate
  /-- The start of a device control string. -/
  | deviceEntry
  | deviceParameter
  | deviceIntermediate
  /-- The body of a device control string. -/
  | deviceString
  /-- A command to the operating system, such as a link. -/
  | command
  /-- A string that no terminal shows. -/
  | message
  deriving DecidableEq, Repr

/-- What a byte does. -/
inductive Effect where
  /-- It is shown as a character of its own. -/
  | print
  /-- It is a control character that is carried out. -/
  | execute
  /-- It opens a character beyond ASCII. -/
  | openCharacter
  /-- It is part of a sequence, or ignored. -/
  | none
  deriving DecidableEq, Repr

def between (lo hi n : Nat) : Bool :=
  lo ≤ n && n ≤ hi

/-- The control characters that neither open nor cancel a sequence. -/
def isInnerControl (n : Nat) : Bool :=
  between 0x00 0x17 n || n == 0x19 || between 0x1C 0x1F n

def isCancel (n : Nat) : Bool :=
  n == 0x18 || n == 0x1A

/-- The byte that ends a string. -/
def stringEnd : Nat := 0x9C

def escapeByte : Nat := 0x1B

def bell : Nat := 0x07

def deleteByte : Nat := 0x7F

namespace Mode

/-- What a byte does behind an escape character. -/
def afterEscape? (n : Nat) : Option (Mode × Effect) :=
  if isInnerControl n then some (escape, .execute)
  else if n = deleteByte then some (escape, .none)
  else if between 0x20 0x2F n then some (escapeIntermediate, .none)
  else if n = '['.toNat then some (control, .none)
  else if n = ']'.toNat then some (command, .none)
  else if n = 'P'.toNat then some (deviceEntry, .none)
  else if n = 'X'.toNat ∨ n = '^'.toNat ∨ n = '_'.toNat then some (message, .none)
  else if between 0x30 0x7E n then some (ground, .none)
  else none

/-- What a byte does in a mode of its own accord. -/
def own? (m : Mode) (n : Nat) : Option (Mode × Effect) :=
  match m with
  | ground =>
    if isInnerControl n || n == deleteByte then some (ground, .execute)
    else if between 0x20 0x7E n then some (ground, .print)
    else none
  | escape => afterEscape? n
  | escapeIntermediate =>
    if isInnerControl n then some (escapeIntermediate, .execute)
    else if between 0x20 0x2F n || n == deleteByte then some (escapeIntermediate, .none)
    else if between 0x30 0x7E n then some (ground, .none)
    else none
  | control =>
    if isInnerControl n then some (control, .execute)
    else if between 0x20 0x2F n then some (controlIntermediate, .none)
    else if between 0x30 0x3F n || n == deleteByte then some (control, .none)
    else if between 0x40 0x7E n then some (ground, .none)
    else none
  | controlIntermediate =>
    if isInnerControl n then some (controlIntermediate, .execute)
    else if between 0x20 0x2F n || n == deleteByte then some (controlIntermediate, .none)
    else if between 0x30 0x7E n then some (ground, .none)
    else none
  | deviceEntry =>
    if between 0x08 0x0D n || n == escapeByte then some (deviceString, .none)
    else if isInnerControl n || n == deleteByte then some (deviceEntry, .none)
    else if between 0x20 0x2F n then some (deviceIntermediate, .none)
    else if between 0x30 0x3F n then some (deviceParameter, .none)
    else if between 0x40 0x7E n then some (deviceString, .none)
    else none
  | deviceParameter =>
    if isInnerControl n || n == deleteByte || between 0x30 0x3F n then
      some (deviceParameter, .none)
    else if between 0x20 0x2F n then some (deviceIntermediate, .none)
    else if between 0x40 0x7E n then some (deviceString, .none)
    else none
  | deviceIntermediate =>
    if isInnerControl n || n == deleteByte || between 0x20 0x2F n then
      some (deviceIntermediate, .none)
    else if between 0x30 0x7E n then some (deviceString, .none)
    else none
  | deviceString =>
    if n = escapeByte then some (escape, .none)
    else if n == stringEnd || isCancel n then some (ground, .none)
    else some (deviceString, .none)
  | command =>
    if n = escapeByte then some (escape, .none)
    else if n == bell || n == stringEnd || isCancel n then some (ground, .none)
    else some (command, .none)
  | message =>
    if n = escapeByte then some (escape, .none)
    else if n == stringEnd || isCancel n then some (ground, .none)
    else if n < 0x80 then some (message, .none)
    else none

/-- What a byte does in every mode that has no rule of its own for it. -/
def shared (n : Nat) : Mode × Effect :=
  if n = escapeByte then (escape, .none)
  else if isCancel n then (ground, .execute)
  else if n = 0x90 then (deviceEntry, .none)
  else if n = 0x9B then (control, .none)
  else if n = 0x9D then (command, .none)
  else if n = 0x98 ∨ n = 0x9E ∨ n = 0x9F then (message, .none)
  else if between 0x80 0x9C n then (ground, .execute)
  else if between 0xC2 0xF4 n then (ground, .openCharacter)
  else (ground, .none)

/-- The mode behind a byte, and what the byte does. -/
def step (m : Mode) (b : UInt8) : Mode × Effect :=
  (m.own? b.toNat).getD (shared b.toNat)

/-- Whether a glyph opens a cluster that is shown. -/
def opensCluster (m : Mode) (g : Glyph) : Bool :=
  match g.bytes with
  | [] => false
  | b :: _ => (m.step b).2 == .openCharacter

def run (m : Mode) (bytes : List UInt8) : Mode :=
  bytes.foldl (fun m b => (m.step b).1) m

def effects (m : Mode) : List UInt8 → List (UInt8 × Effect)
  | [] => []
  | b :: rest => (b, (m.step b).2) :: effects (m.step b).1 rest

end Mode

end Keyplan.Terminal
