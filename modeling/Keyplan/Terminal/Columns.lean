import Keyplan.Terminal.Mode
import Keyplan.Text.Cluster
import Keyplan.Text.Lines

/-!
How many columns of a terminal a text takes, and texts that are made to take a given number of
columns.
-/

namespace Keyplan.Terminal

/-- What a text consists of for a terminal: clusters that are shown, and other bytes with what they
do. -/
inductive Piece where
  | cluster (c : Cluster)
  | octet (b : UInt8) (e : Effect)

/-- The pieces of a text that is read in a mode. Behind a cluster a terminal is back at the
ground. -/
def pieces (m : Mode) : Text → List Piece
  | [] => []
  | g :: rest =>
    if m.opensCluster g then
      let c := Cluster.atStart g rest
      .cluster c :: pieces .ground (rest.drop c.more.length)
    else
      (m.effects g.bytes).map (fun (b, e) => .octet b e) ++ pieces (m.run g.bytes) rest
termination_by t => t.length
decreasing_by
  · simp only [List.length_drop, List.length_cons]
    omega
  · simp only [List.length_cons]
    omega

def Piece.columns : Piece → Nat
  | .cluster c => c.columns
  | .octet _ e => if e = .print then 1 else 0

/-- The columns a line takes. -/
def columns (line : Text) : Nat :=
  (pieces .ground line).foldl (fun n p => n + p.columns) 0

def widest (lines : List Text) : Nat :=
  (lines.map columns).foldl max 0

def blanks (n : Nat) : Text :=
  List.replicate n (.char ' ')

/-- A line with blanks behind it up to a number of columns. -/
def pad (width : Nat) (line : Text) : Text :=
  line ++ blanks (width - columns line)

/-- Lines with blanks behind them, so that all take as many columns as the widest and at least
`width`. -/
def level (width : Nat) (lines : List Text) : List Text :=
  lines.map (pad (max width (widest lines)))

/-! ## Cutting -/

def isShownByte (m : Mode) (g : Glyph) : Bool :=
  match g.bytes with
  | [b] => (m.step b).2 == .print
  | _ => false

/-- The start of a line that has room in `room` columns. Once something had no room, nothing more is
shown, but what is not shown stays. -/
def cutFrom (m : Mode) (room : Nat) (full : Bool) : Text → Text
  | [] => []
  | g :: rest =>
    if m.opensCluster g then
      let c := Cluster.atStart g rest
      let behind := rest.drop c.more.length
      if full || room < c.columns then cutFrom m room true behind
      else c.text ++ cutFrom .ground (room - c.columns) false behind
    else if isShownByte m g then
      if full || room = 0 then cutFrom m room true rest
      else g :: cutFrom (m.run g.bytes) (room - 1) false rest
    else g :: cutFrom (m.run g.bytes) room full rest
termination_by t => t.length
decreasing_by
  all_goals simp only [List.length_drop, List.length_cons]
  all_goals omega

/-- A line cut to a number of columns. -/
def cut (width : Nat) (line : Text) : Text :=
  if columns line ≤ width then line else cutFrom .ground width false line

end Keyplan.Terminal
