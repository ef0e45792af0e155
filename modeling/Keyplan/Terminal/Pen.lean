import Keyplan.Text

/-!
The pen a terminal writes with: its colours and its other attributes, how a control sequence changes
them, and the sequence that brings them about.
-/

namespace Keyplan.Terminal

/-- A colour: one of sixteen basic ones, one of a palette of 256, or a mixture of red, green and
blue. -/
inductive Colour where
  | basic (n : Nat)
  | indexed (n : Nat)
  | direct (red green blue : Nat)
  deriving DecidableEq, Repr

inductive Underline where
  | none
  | single
  | double
  | curly
  | dotted
  | dashed
  deriving DecidableEq, Repr

structure Pen where
  bold : Bool := false
  faint : Bool := false
  italic : Bool := false
  slowBlink : Bool := false
  rapidBlink : Bool := false
  reverse : Bool := false
  conceal : Bool := false
  strike : Bool := false
  underline : Underline := .none
  foreground : Option Colour := none
  background : Option Colour := none
  underlineColour : Option Colour := none
  deriving DecidableEq, Repr

/-- A parameter of a control sequence. It can be missing, and `more` tells that a colon joins it
with the next one. -/
structure Parameter where
  value? : Option Nat
  more : Bool
  deriving DecidableEq, Repr

/-- The value of a parameter; a missing one counts as zero. -/
def Parameter.value (p : Parameter) : Nat :=
  p.value?.getD 0

/-! ## Colours as parameters -/

namespace Colour

/-- A mixture; each part counts modulo 256. -/
def mix (red green blue : Nat) : Colour :=
  .direct (red % 256) (green % 256) (blue % 256)

/-- The part of a primary colour that is left by an ink and black, both counted modulo 256. -/
def leftBy (ink black : Nat) : Nat :=
  let left := fun n => 0xFFFF - n % 256 * 0x101
  left ink * left black / 0xFFFF / 256

def ofInks (cyan magenta yellow black : Nat) : Colour :=
  .direct (leftBy cyan black) (leftBy magenta black) (leftBy yellow black)

/-- The parts of a colour behind its kind: three of them, perhaps a fourth, and the number of
parameters they take with everything before them. Colons can join a colour space in front and
tolerances behind; semicolons join red, green and blue only. -/
def parts? (ps : List Parameter) : Option ((Nat × Nat × Nat) × Option Nat × Nat) :=
  let joined := fun n => n < ps.length && (ps.take n).all (·.more)
  let value := fun i => (ps[i]?.map Parameter.value).getD 0
  let ends := fun i => (ps[i]?.map fun p => !p.more).getD false
  let three := fun i => (value i, value (i + 1), value (i + 2))
  if joined 8 then some (three 3, some (value 6), 9)
  else if joined 7 then some (three 3, some (value 6), 8)
  else if joined 6 then some (three 3, some (value 6), 7)
  else if joined 5 && ends 5 then some (three 3, none, 6)
  else if value 1 == 2 && ((joined 4 && ends 4) || [0, 1, 2, 3, 4].all ends) then
    some (three 2, none, 5)
  else none

/-- The colour of a palette that is joined by colons or by semicolons. -/
def indexed? : List Parameter → Option Colour
  | target :: kind :: index :: _ =>
    if target.more == kind.more && !index.more then some (.indexed (index.value % 256)) else none
  | _ => none

/-- Reads a colour behind its target, and gives back how many parameters it takes with it. The
usual colour of the target is none. -/
def read? (ps : List Parameter) : Option (Option Colour × Nat) := do
  let kind ← ps[1]?
  match kind.value with
  | 0 => some (none, 2)
  | 1 => some (some (mix 0 0 0), 2)
  | 2 =>
    let ((r, g, b), _, used) ← parts? ps
    some (some (mix r g b), used)
  | 3 =>
    let ((c, m, y), _, used) ← parts? ps
    some (some (ofInks c m y 0), used)
  | 4 =>
    let ((c, m, y), k?, used) ← parts? ps
    some (some (ofInks c m y (← k?)), used)
  | 5 => (indexed? ps).map fun c => (some c, 3)
  | 6 =>
    let ((r, g, b), a?, used) ← parts? ps
    let _ ← a?
    some (some (mix r g b), used)
  | _ => none

/-- The parameters of a colour of a target. The basic colours have parameters of their own, `basic`,
and `target` stands in front of those of every other. -/
def parameters (target : Nat) (basic : Nat → List Nat) : Colour → List Nat
  | .basic n => basic n
  | .indexed n => [target, 5, n]
  | .direct r g b => [target, 2, r, g, b]

/-- The parameter of a basic colour; the bright ones are counted apart. -/
def basicParameter (dark bright n : Nat) : List Nat :=
  [if n < 8 then dark + n else bright + (n - 8)]

end Colour

/-! ## Changes of the pen -/

/-- The underline of a parameter that a colon joins with the one for underlines. -/
def Underline.ofNumber? : Nat → Option Underline
  | 0 => some .none
  | 1 => some .single
  | 2 => some .double
  | 3 => some .curly
  | 4 => some .dotted
  | 5 => some .dashed
  | _ => Option.none

def Underline.parameter? : Underline → Option String
  | .none => Option.none
  | .single => some "4"
  | .double => some "4:2"
  | .curly => some "4:3"
  | .dotted => some "4:4"
  | .dashed => some "4:5"

namespace Pen

/-- Changes the underline, and gives back how many parameters behind it that took. -/
def changeUnderline (pen : Pen) (p : Parameter) (rest : List Parameter) : Pen × Nat :=
  match p.more, rest with
  | true, next :: _ =>
    match Underline.ofNumber? next.value with
    | some u => ({ pen with underline := u }, 1)
    | none => (pen, 0)
  | _, _ => ({ pen with underline := .single }, 0)

/-- Changes the pen by a parameter of its own. -/
def changeBy (pen : Pen) (n : Nat) : Pen :=
  match n with
  | 0 => {}
  | 1 => { pen with bold := true }
  | 2 => { pen with faint := true }
  | 3 => { pen with italic := true }
  | 5 => { pen with slowBlink := true }
  | 6 => { pen with rapidBlink := true }
  | 7 => { pen with reverse := true }
  | 8 => { pen with conceal := true }
  | 9 => { pen with strike := true }
  | 22 => { pen with bold := false, faint := false }
  | 23 => { pen with italic := false }
  | 24 => { pen with underline := .none }
  | 25 => { pen with slowBlink := false, rapidBlink := false }
  | 27 => { pen with reverse := false }
  | 28 => { pen with conceal := false }
  | 29 => { pen with strike := false }
  | 39 => { pen with foreground := none }
  | 49 => { pen with background := none }
  | 59 => { pen with underlineColour := none }
  | _ =>
    if 30 ≤ n ∧ n ≤ 37 then { pen with foreground := some (.basic (n - 30)) }
    else if 40 ≤ n ∧ n ≤ 47 then { pen with background := some (.basic (n - 40)) }
    else if 90 ≤ n ∧ n ≤ 97 then { pen with foreground := some (.basic (n - 90 + 8)) }
    else if 100 ≤ n ∧ n ≤ 107 then { pen with background := some (.basic (n - 100 + 8)) }
    else pen

/-- Changes a colour of the pen, and gives back how many parameters behind `p` that took. -/
def changeColour (pen : Pen) (p : Parameter) (rest : List Parameter) (set : Option Colour → Pen) :
    Pen × Nat :=
  match Colour.read? (p :: rest) with
  | some (c?, used) => (set c?, used - 1)
  | none => (pen, 0)

/-- Changes the pen by a parameter and those that belong to it. -/
def change (pen : Pen) (p : Parameter) (rest : List Parameter) : Pen × Nat :=
  match p.value with
  | 4 => pen.changeUnderline p rest
  | 38 => pen.changeColour p rest fun c? => { pen with foreground := c? }
  | 48 => pen.changeColour p rest fun c? => { pen with background := c? }
  | 58 => pen.changeColour p rest fun c? => { pen with underlineColour := c? }
  | n => (pen.changeBy n, 0)

def changeAll (pen : Pen) : List Parameter → Pen
  | [] => pen
  | p :: rest =>
    let (changed, used) := pen.change p rest
    changed.changeAll (rest.drop used)
termination_by ps => ps.length
decreasing_by
  simp only [List.length_drop, List.length_cons]
  omega

/-- Changes the pen as the parameters of a control sequence say; without any it is the usual one
again. -/
def obey (pen : Pen) (ps : List Parameter) : Pen :=
  if ps.isEmpty then {} else pen.changeAll ps

/-! ## Bringing a pen about -/

/-- Whether a blank written with the pen is blank. -/
def leavesBlanks (pen : Pen) : Bool :=
  !pen.reverse && pen.background.isNone && pen.underline == .none

def colourParameters (pen : Pen) : List Nat :=
  let parameters := fun target basic (c? : Option Colour) =>
    (c?.map (Colour.parameters target basic)).getD []
  parameters 38 (Colour.basicParameter 30 90) pen.foreground
    ++ parameters 48 (Colour.basicParameter 40 100) pen.background
    ++ parameters 58 (fun n => [58, 5, n]) pen.underlineColour

/-- The parameters that turn the usual pen into this one. -/
def parameters (pen : Pen) : List String :=
  let flags := [(pen.bold, "1"), (pen.faint, "2"), (pen.italic, "3"), (pen.slowBlink, "5"),
    (pen.rapidBlink, "6"), (pen.reverse, "7"), (pen.conceal, "8"), (pen.strike, "9")]
  (flags.filter (·.1)).map (·.2) ++ pen.underline.parameter?.toList
    ++ pen.colourParameters.map toString

/-- The control sequence that asks for the usual pen. -/
def reset : Text :=
  Text.ofString "\x1b[m"

/-- The control sequence that turns the usual pen into this one. -/
def sequence (pen : Pen) : Text :=
  Text.ofString ("\x1b[" ++ ";".intercalate pen.parameters ++ "m")

end Pen

end Keyplan.Terminal
