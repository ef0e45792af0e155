import Keyplan.Text
import Keyplan.Text.ClusterClass
import Keyplan.Text.Wide

/-!
Grapheme clusters: what a reader takes for one character, and how many columns it takes. A cluster
goes on as long as the rules of Unicode 15.0 forbid a break; a break between two parts of a
conjunct of an Indic script is allowed.
-/

namespace Keyplan

/-- What a cluster ends in, as far as it matters for what may follow. -/
inductive ClusterTail where
  | any
  | carriageReturn
  | control
  | leading
  | vowel
  | trailing
  | prepended
  | pictograph
  /-- A pictograph, marks on it, and a joiner. -/
  | joinedPictograph
  /-- The first letter of a flag. -/
  | halfFlag
  | flag
  deriving DecidableEq, Repr

namespace ClusterTail

def start : ClusterClass → ClusterTail
  | .carriageReturn => carriageReturn
  | .lineFeed | .control => control
  | .leading => leading
  | .vowel | .openSyllable => vowel
  | .trailing | .closedSyllable => trailing
  | .prepended => prepended
  | .pictograph => pictograph
  | .regional => halfFlag
  | .other | .extend | .joiner | .spacingMark => any

/-- Whether a character of a class goes on with a cluster. -/
def joins : ClusterTail → ClusterClass → Bool
  | carriageReturn, cls => cls == .lineFeed
  | control, _ => false
  -- A line end or a control character stands alone, and marks join anything else.
  | _, .carriageReturn | _, .lineFeed | _, .control => false
  | _, .extend | _, .joiner | _, .spacingMark => true
  | prepended, _ => true
  | leading, cls => cls ∈ [.leading, .vowel, .openSyllable, .closedSyllable]
  | vowel, cls => cls ∈ [.vowel, .trailing]
  | trailing, cls => cls == .trailing
  | joinedPictograph, cls => cls == .pictograph
  | halfFlag, cls => cls == .regional
  | any, _ | pictograph, _ | flag, _ => false

/-- What a cluster ends in behind one more character. -/
def next : ClusterTail → ClusterClass → ClusterTail
  | pictograph, .extend => pictograph
  | pictograph, .joiner => joinedPictograph
  | halfFlag, .regional => flag
  | _, cls => start cls

end ClusterTail

/-- A cluster: a first glyph, and those that go with it. -/
structure Cluster where
  first : Glyph
  more : Text
  deriving DecidableEq, Repr

namespace Cluster

/-- The class of a glyph, which is that of the character it is shown as. -/
def classOf (g : Glyph) : ClusterClass :=
  ClusterClass.of g.shown

/-- The glyphs at the start of a text that go on with a cluster before it. -/
def continuation (tail : ClusterTail) : Text → Text
  | [] => []
  | g :: rest =>
    if tail.joins (classOf g) then g :: continuation (tail.next (classOf g)) rest else []

def atStart (g : Glyph) (rest : Text) : Cluster :=
  ⟨g, continuation (ClusterTail.start (classOf g)) rest⟩

def text (c : Cluster) : Text :=
  c.first :: c.more

/-! ## Columns -/

/-- The columns a glyph takes on its own. -/
def glyphColumns (g : Glyph) : Nat :=
  match classOf g with
  | .control | .carriageReturn | .lineFeed | .extend | .joiner => 0
  | .regional => 2
  | .pictograph => if isPicture g.shown then 2 else 1
  | _ =>
    if g.shown = '\u2E3A' then 3
    else if g.shown = '\u2E3B' then 4
    else if isWide g.shown then 2
    else 1

/-- The columns of a pictograph behind a glyph that may ask for a text or a picture. -/
def presented (columns : Nat) (g : Glyph) : Nat :=
  if g = .char '\uFE0E' then 1 else if g = .char '\uFE0F' then 2 else columns

/-- The columns a cluster takes. A flag and a Hangul syllable are as wide as their first letter, and
the last selector of a pictograph decides; otherwise every glyph counts. -/
def columns (c : Cluster) : Nat :=
  match classOf c.first with
  | .pictograph => c.more.foldl presented (glyphColumns c.first)
  | .regional | .leading => glyphColumns c.first
  | _ => c.more.foldl (fun n g => n + glyphColumns g) (glyphColumns c.first)

end Cluster

end Keyplan
