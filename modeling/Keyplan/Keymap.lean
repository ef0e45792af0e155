import Keyplan.CustomKeys
import Keyplan.KeyRegistry
import Keyplan.Layer

/-!
A resolved description, which is what the backends read, and the meaning of the names in it.
-/

namespace Keyplan

/-- A description with its layout, layers, options and custom keys resolved. -/
structure Keymap where
  description : Description
  layout : Layout
  layers : List Layer
  options : OptionTable Backend
  customKeys : CustomKeys

namespace Keymap

/-- Resolves a description on top of default options; the first fault found is the result. -/
def resolve (d : Description) (defaults : List DefaultOption) : Except Diagnostic Keymap := do
  -- The order decides which fault is reported: options first, layers last.
  let options ← OptionTable.resolve d.options defaults
  let customKeys ← CustomKeys.resolve d.keys
  let layout ← Layout.resolve d.layout
  let layers ← Layer.resolveAll layout d.layers
  return {
    description := d
    layout := layout
    layers := layers
    options := { options with anchor := d.layout.span.first }
    customKeys := customKeys }

/-! ## Layers -/

/-- The names of the layers; the place of a name is the index of its layer. -/
def layerNames (m : Keymap) : List String :=
  m.layers.map (·.name)

def layerIndex? (m : Keymap) (name : String) : Option Nat :=
  m.layerNames.idxOf? name

def resolveLayer (m : Keymap) (name : String) (span : Span) : Except Diagnostic Nat :=
  match m.layerIndex? name with
  | some i => .ok i
  | none => .error
      { cause := .meaning .unknownLayer
        detail := name
        span := span
        suggestions := Suggestion.didYouMean name m.layerNames }

/-! ## Keys -/

/-- The key names a backend understands: its custom keys, then the named keys that no custom key
hides. -/
def keyNames (m : Keymap) (b : Backend) : List String :=
  m.customKeys.names b ++ NamedKey.names.filter fun name => (m.customKeys.get? b name).isNone

def unknownKey (m : Keymap) (b : Backend) (name : String) (span : Span) : Diagnostic where
  cause := .meaning .unknownNamedKey
  detail := s!"{name} has no meaning for the {b.name} backend"
  span := span
  help := "declare it with `key " ++ name ++ " \x7b out " ++ b.name ++ ": \"...\"; \x7d`"
  suggestions := Suggestion.didYouMean name (m.keyNames b)

/-- The meaning of a key name on a backend: a custom output, or a named key. -/
inductive KeyMeaning where
  | custom (output : CustomOutput)
  | named (key : NamedKey)

def resolveName (m : Keymap) (b : Backend) (name : String) (span : Span) :
    Except Diagnostic KeyMeaning :=
  match m.customKeys.get? b name with
  | some output => .ok (.custom output)
  | none =>
    match NamedKey.find? name with
    | some key => .ok (.named key)
    | none => .error (m.unknownKey b name span)

def resolveChar (c : Char) (span : Span) : Except Diagnostic CharKey :=
  match CharKey.find? c with
  | some key => .ok key
  | none => .error { cause := .meaning .unknownCharKey, detail := quotedChar c, span := span }

end Keymap

end Keyplan
