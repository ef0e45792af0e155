import Keyplan.OptionTable

/-!
Custom keys: the outputs that key declarations give a key name on the backends. The last output for
a backend wins; names are listed in the order they were declared.
-/

namespace Keyplan

structure CustomOutput where
  text : String
  span : Span := {}
  deriving DecidableEq, Repr

structure CustomKeys where
  outputs : OrderedMap (Backend × String) CustomOutput := []

namespace CustomKeys

def get? (c : CustomKeys) (b : Backend) (name : String) : Option CustomOutput :=
  c.outputs.get? (b, name)

/-- The custom keys of a backend in the order they were declared. -/
def entries (c : CustomKeys) (b : Backend) : List (String × CustomOutput) :=
  (c.outputs.filter fun e => e.1.1 = b).map fun ((_, name), out) => (name, out)

def names (c : CustomKeys) (b : Backend) : List String :=
  (c.entries b).map (·.1)

def addOutput (name : String) (c : CustomKeys) (out : KeyOutput) :
    Except Diagnostic CustomKeys := do
  let b ← Backend.resolve out.backend out.backendSpan
  return { c with outputs := c.outputs.insert (b, name) ⟨out.text, out.span⟩ }

def duplicateKey (first second : KeyDeclaration) : Diagnostic where
  cause := .meaning .duplicateKey
  detail := second.name
  span := second.nameSpan
  labels := [⟨first.nameSpan, "first declared here"⟩]

/-- Adds declarations behind the declarations `seen`. -/
def addAll (seen : List KeyDeclaration) (c : CustomKeys) :
    List KeyDeclaration → Except Diagnostic CustomKeys
  | [] => .ok c
  | d :: rest => do
    match seen.find? (·.name == d.name) with
    | some first => throw (duplicateKey first d)
    | none =>
      let c' ← d.outputs.foldlM (addOutput d.name) c
      addAll (seen ++ [d]) c' rest

def resolve (decls : List KeyDeclaration) : Except Diagnostic CustomKeys :=
  addAll [] {} decls

end CustomKeys

end Keyplan
