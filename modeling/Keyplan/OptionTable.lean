import Keyplan.Backend
import Keyplan.Description
import Keyplan.Diagnostic
import Keyplan.OrderedMap
import Keyplan.Suggestion
import Keyplan.Text.Quoted
import Keyplan.Word

/-!
Option values. An option is addressed to a backend and has a name; the last value wins, and options
are listed in the order they were first set. Declarations win over defaults.
-/

namespace Keyplan

/-- The value of an option and where it was written; a default was written nowhere. -/
structure OptionValue where
  value : String
  span : Span := {}
  deriving DecidableEq, Repr

structure OptionEntry (β : Type) where
  backend : β
  name : String
  value : String
  span : Span := {}
  deriving DecidableEq, Repr

/-- The options in force, the place of the first options block of each backend, and the place
shown for a backend without one. -/
structure OptionTable (β : Type) where
  values : OrderedMap (β × String) OptionValue := []
  blocks : OrderedMap β Span := []
  anchor : Span := {}

def unknownBackend (name : String) (span : Span) : Diagnostic where
  cause := .meaning .unknownBackend
  detail := name
  span := span
  suggestions := Suggestion.didYouMean name Backend.names

def Backend.resolve (name : String) (span : Span) : Except Diagnostic Backend :=
  match Backend.ofName? name with
  | some b => .ok b
  | none => .error (unknownBackend name span)

/-- The decimal number a text spells, with an optional sign, if it fits a 64-bit signed integer. -/
def readInt64? (s : String) : Option Int :=
  let (negative, digits) := match s.toList with
    | '-' :: ds => (true, ds)
    | '+' :: ds => (false, ds)
    | ds => (false, ds)
  if digits.isEmpty || !digits.all Char.isDigit then none
  else
    let n := digits.foldl (fun n d => 10 * n + (d.toNat - '0'.toNat)) 0
    -- Below zero there is room for one number more.
    if negative then (if n ≤ Word.signedEnd then some (-(n : Int)) else none)
    else if n < Word.signedEnd then some n
    else none

namespace OptionTable

variable {β : Type} [DecidableEq β]

def set (t : OptionTable β) (b : β) (name : String) (v : OptionValue) : OptionTable β :=
  { t with values := t.values.insert (b, name) v }

def get? (t : OptionTable β) (b : β) (name : String) : Option OptionValue :=
  t.values.get? (b, name)

def lookup (t : OptionTable β) (b : β) (name : String) : Option (OptionEntry β) :=
  (t.get? b name).map fun v => ⟨b, name, v.value, v.span⟩

def getD (t : OptionTable β) (b : β) (name default : String) : String :=
  ((t.get? b name).map (·.value)).getD default

/-- The options of a backend in the order they were first set. -/
def entries (t : OptionTable β) (b : β) : List (OptionEntry β) :=
  (t.values.filter fun e => e.1.1 = b).map fun ((b, name), v) => ⟨b, name, v.value, v.span⟩

/-- The value of a numeric option, or `default` when it is not set. -/
def number [Addressee β] (t : OptionTable β) (b : β) (name : String) (default : Int) :
    Except Diagnostic Int :=
  match t.get? b name with
  | none => .ok default
  | some v =>
    let fault : Diagnostic :=
      { cause := .meaning .invalidOptionValue
        detail := name ++ " of the " ++ Addressee.shown b
          ++ " backend must be a non-negative integer, found " ++ quotedString v.value
        span := v.span }
    match readInt64? v.value with
    | none => .error fault
    | some n => if n < 0 then .error fault else .ok n

/-- An option a backend cannot work without. -/
def require [Addressee β] (t : OptionTable β) (b : β) (name : String) :
    Except Diagnostic (OptionEntry β) :=
  match t.lookup b name with
  | some e => .ok e
  | none =>
    let shown := Addressee.shown b
    .error
      { cause := .meaning .optionRequired
        detail := name ++ " is required by the " ++ shown ++ " backend"
        span := (t.blocks.get? b).getD t.anchor
        help := "declare it in `options " ++ shown ++ " \x7b " ++ name ++ ": \"...\"; \x7d`" }

def setLines (t : OptionTable β) (b : β) (lines : List OptionLine) : OptionTable β :=
  lines.foldl (fun t l => t.set b l.name ⟨l.value, l.valueSpan⟩) t

end OptionTable

/-- A value an option has unless the description sets it. It consists of characters, so bytes that
encode none cannot be a default, and it has no place in the description. -/
structure DefaultOption where
  backend : Backend
  name : String
  value : String
  deriving DecidableEq, Repr

namespace OptionTable

def addBlock (t : OptionTable Backend) (block : OptionsBlock) :
    Except Diagnostic (OptionTable Backend) := do
  let b ← Backend.resolve block.backend block.backendSpan
  -- A missing option is reported at the first block of its backend.
  let blocks := if (t.blocks.get? b).isSome then t.blocks else t.blocks.insert b block.span
  return { t with blocks := blocks }.setLines b block.options

/-- The options in force for options blocks on top of defaults. -/
def resolve (blocks : List OptionsBlock) (defaults : List DefaultOption) :
    Except Diagnostic (OptionTable Backend) :=
  let initial : OptionTable Backend :=
    defaults.foldl (fun t d => t.set d.backend d.name { value := d.value }) {}
  blocks.foldlM addBlock initial

end OptionTable

end Keyplan
