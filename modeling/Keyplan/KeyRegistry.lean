/-!
The key names and characters a description can use without declaring them.
-/

namespace Keyplan

/-- A key known by name. The key that does nothing has an empty code. -/
structure NamedKey where
  name : String
  code : String := ""
  deriving DecidableEq, Repr

/-- A character and the code that types it, perhaps with shift held. -/
structure CharKey where
  char : Char
  code : String
  shifted : Bool
  deriving DecidableEq, Repr

namespace NamedKey

def isNoOp (k : NamedKey) : Bool :=
  k.code == ""

def functionKeys : List NamedKey :=
  (List.range 10).map fun n => ⟨s!"f{n + 1}", s!"F{n + 1}"⟩

def all : List NamedKey :=
  [⟨"esc", "Escape"⟩, ⟨"space", "Space"⟩, ⟨"bspace", "BSpace"⟩, ⟨"del", "Delete"⟩,
   ⟨"lshift", "LShift"⟩, ⟨"rshift", "RShift"⟩, ⟨"lctrl", "LCtrl"⟩, ⟨"rctrl", "RCtrl"⟩,
   ⟨"lalt", "LAlt"⟩, ⟨"ralt", "RAlt"⟩, ⟨"lgui", "LGui"⟩, ⟨"rgui", "RGui"⟩,
   ⟨"enter", "Enter"⟩, ⟨"tab", "Tab"⟩, ⟨"n", ""⟩, ⟨"pgup", "PgUp"⟩, ⟨"pgdown", "PgDown"⟩,
   ⟨"volup", "VolUp"⟩, ⟨"voldown", "VolDown"⟩, ⟨"left", "Left"⟩, ⟨"up", "Up"⟩,
   ⟨"right", "Right"⟩, ⟨"down", "Down"⟩, ⟨"end", "End"⟩] ++ functionKeys

def names : List String := all.map (·.name)

def find? (name : String) : Option NamedKey :=
  all.find? (·.name == name)

end NamedKey

namespace CharKey

def charRange (first : Char) (count : Nat) : List Char :=
  (List.range count).map fun i => Char.ofNat (first.toNat + i)

def letters : List CharKey :=
  (charRange 'a' 26).map fun c => ⟨c, String.singleton c.toUpper, false⟩

def digits : List CharKey :=
  (charRange '0' 10).map fun c => ⟨c, "Kb" ++ String.singleton c, false⟩

/-- The characters above the digits 0 to 9. -/
def shiftedDigits : List CharKey :=
  ")!@#$%^&*(".toList.zipIdx.map fun (c, i) => ⟨c, s!"Kb{i}", true⟩

/-- The keys of punctuation: the plain character, the shifted one and the code. -/
def punctuationKeys : List (Char × Char × String) :=
  [('-', '_', "Minus"), ('=', '+', "Equal"), ('[', '\x7b', "LBracket"), (']', '\x7d', "RBracket"),
   ('\\', '|', "Bslash"), (';', ':', "SColon"), ('\'', '\"', "Quote"), ('\x60', '~', "Grave"),
   (',', '<', "Comma"), ('.', '>', "Dot"), ('/', '?', "Slash")]

def punctuation : List CharKey :=
  punctuationKeys.flatMap fun (plain, shifted, code) =>
    [⟨plain, code, false⟩, ⟨shifted, code, true⟩]

def all : List CharKey :=
  letters ++ digits ++ shiftedDigits ++ punctuation

def find? (c : Char) : Option CharKey :=
  all.find? (·.char == c)

/-- Every character that can be typed, in the order of code points. -/
def sortedChars : List Char :=
  (all.map (·.char)).mergeSort fun a b => decide (a ≤ b)

end CharKey

end Keyplan
