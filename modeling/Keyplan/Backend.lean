/-!
The consumers of a description. Options and key outputs are addressed to one of them.
-/

namespace Keyplan

inductive Backend where
  | firmware
  | diagram
  | formatter
  deriving DecidableEq, Repr

namespace Backend

/-- Every backend, in the order they are listed. -/
def all : List Backend := [.firmware, .diagram, .formatter]

def name : Backend → String
  | firmware => "firmware"
  | diagram => "diagram"
  | formatter => "formatter"

def names : List String := all.map name

def ofName? (s : String) : Option Backend :=
  all.find? fun b => b.name == s

/-- The number a backend is known by. -/
def code : Backend → Int
  | firmware => 0
  | diagram => 1
  | formatter => 2

end Backend

/-- A number that may or may not stand for a backend. -/
structure BackendCode where
  code : Int
  deriving DecidableEq, Repr

namespace BackendCode

def backend? (c : BackendCode) : Option Backend :=
  Backend.all.find? fun b => b.code == c.code

def name (c : BackendCode) : Except String String :=
  match c.backend? with
  | some b => .ok b.name
  | none => .error s!"invalid backend: {c.code}"

/-- What is shown in place of a name inside a longer text. -/
def shown (c : BackendCode) : String :=
  match c.name with
  | .ok name => name
  | .error reason => "%!v(PANIC=String method: " ++ reason ++ ")"

end BackendCode

/-- What an option can be addressed to, and how that is shown. -/
class Addressee (β : Type) where
  shown : β → String

instance : Addressee Backend := ⟨Backend.name⟩

instance : Addressee BackendCode := ⟨BackendCode.shown⟩

end Keyplan
