import Keyplan.Description.Parser
import Keyplan.Diagram
import Keyplan.Firmware.Table
import Keyplan.Format

/-!
From the text of a description to an artifact: reading, resolving and one of the targets. A failure
is a diagnostic together with the source it quotes.
-/

namespace Keyplan

/-- The artifacts a description compiles to. -/
inductive Target where
  | firmware
  | diagram
  | format
  deriving DecidableEq, Repr

namespace Target

def all : List Target := [.firmware, .diagram, .format]

def name : Target → String
  | firmware => "firmware"
  | diagram => "diagram"
  | format => "format"

def ofName? (s : String) : Option Target :=
  all.find? fun t => t.name == s

/-- The number a target is known by. -/
def code : Target → Int
  | firmware => 0
  | diagram => 1
  | format => 2

def ofCode (n : Int) : Except String Target :=
  match all.find? fun t => t.code == n with
  | some t => .ok t
  | none => .error s!"invalid target: {n}"

def emit (t : Target) (m : Keymap) : Except Diagnostic String :=
  match t with
  | firmware => (Firmware.Table.build m).map Firmware.Table.render
  | diagram => (Diagram.build m).map fun doc => String.ofList doc.render
  | format => (Format.format m).map String.ofList

end Target

structure Failure where
  diagnostic : Diagnostic
  origin : Origin

def Failure.render (f : Failure) : Text :=
  f.diagnostic.render f.origin

/-- A result whose diagnostic quotes `origin`. -/
def quoting {α : Type} (origin : Origin) (r : Except Diagnostic α) : Except Failure α :=
  r.mapError fun d => ⟨d, origin⟩

def Keymap.read (source : Text) (defaults : List DefaultOption) : Except Diagnostic Keymap := do
  let description ← Description.parse source
  Keymap.resolve description defaults

def load (origin : Origin) (defaults : List DefaultOption) : Except Failure Keymap :=
  quoting origin (Keymap.read origin.text defaults)

def compile (origin : Origin) (defaults : List DefaultOption) (t : Target) :
    Except Failure String := do
  let m ← load origin defaults
  quoting origin (t.emit m)

theorem compile_eq_quoting (origin : Origin) (defaults : List DefaultOption) (t : Target) :
    compile origin defaults t = quoting origin (Keymap.read origin.text defaults >>= t.emit) := by
  unfold compile load
  cases Keymap.read origin.text defaults <;> rfl

end Keyplan
