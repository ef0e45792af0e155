import Keyplan.Description.Parser
import Keyplan.Proofs.Grammar
import Keyplan.Proofs.Outline

/-!
# Shapes — the nodes of a description and of its derivation

The outline of a part of a description is made of the places that it and its parts have. The shape
of a derivation says which of its tokens belong to which node.
-/

namespace Keyplan

open Token (Kind)

/-! ## 1. The outline of a description -/

def LayoutItem.outline (i : LayoutItem) : Outline :=
  .mark i.span

def LayoutRow.outline (r : LayoutRow) : Outline :=
  .node r.span (r.items.map LayoutItem.outline ++ [.mark r.semicolon])

def LayoutBlock.outline (b : LayoutBlock) : Outline :=
  .node b.span (b.rows.map LayoutRow.outline)

def OptionLine.outline (o : OptionLine) : Outline :=
  .node o.span [.mark o.nameSpan, .mark o.valueSpan]

def OptionsBlock.outline (b : OptionsBlock) : Outline :=
  .node b.span (.mark b.backendSpan :: b.options.map OptionLine.outline)

def KeyOutput.outline (o : KeyOutput) : Outline :=
  .node o.span [.mark o.backendSpan]

def KeyDeclaration.outline (d : KeyDeclaration) : Outline :=
  .node d.span (.mark d.nameSpan :: d.outputs.map KeyOutput.outline)

def PlainKey.outline (k : PlainKey) : Outline :=
  .mark k.span

def Key.outline (k : Key) : Outline :=
  .node k.span (k.plainKeys.map PlainKey.outline)

def Chord.outline (c : Chord) : Outline :=
  .node c.span [c.key.outline]

def RowItem.outline : RowItem → Outline
  | key k => k.outline
  | chord c => c.outline

def LayerRow.outline (r : LayerRow) : Outline :=
  .node r.span (r.items.map RowItem.outline ++ [.mark r.semicolon])

def LayerBlock.outline (b : LayerBlock) : Outline :=
  .node b.span (.mark b.nameSpan :: b.rows.map LayerRow.outline)

def Parser.Block.outline : Parser.Block → Outline
  | .layout b => b.outline
  | .options b => b.outline
  | .key d => d.outline
  | .layer b => b.outline

/-! ## 2. The shape of a derivation -/

namespace Grammar

/-- Tokens that nothing but the node around them has. -/
def tokens (ks : List Kind) : List Shape :=
  ks.map fun _ => .token

def Cell.shape (c : Cell) : Shape :=
  .node (tokens c.kinds)

def PlainKey.shape (k : PlainKey) : Shape :=
  .node (tokens k.kinds)

def Hold.shapes (h : Hold) : List Shape :=
  .token :: h.key.shape :: tokens (timeoutKinds h.timeout)

def Key.shape (k : Key) : Shape :=
  .node (k.tap.shape :: (k.hold.map Hold.shapes).getD [])

def Item.shape : Item → Shape
  | key k => k.shape
  | chord k => .node [.token, k.shape, .token]

def Row.shape {α : Type} (item : α → Shape) (r : Row α) : Shape :=
  .node (r.items.map item ++ [.mark])

def OptionLine.shape (_ : OptionLine) : Shape :=
  .node [.mark, .token, .mark, .token]

def OutLine.shape (_ : OutLine) : Shape :=
  .node [.token, .mark, .token, .token, .token]

/-- A keyword, what is named behind it, and the parts between the braces. -/
def bracedShape (name parts : List Shape) : Shape :=
  .node (.token :: name ++ .token :: parts ++ [.token])

def Block.shape : Block → Shape
  | layout rows => bracedShape [] (rows.map (Row.shape Cell.shape))
  | options _ lines => bracedShape [.mark] (lines.map OptionLine.shape)
  | key _ lines => bracedShape [.mark] (lines.map OutLine.shape)
  | layer _ rows => bracedShape [.mark] (rows.map (Row.shape Item.shape))

@[simp] theorem sizes_tokens (ks : List Kind) : Shape.sizes (tokens ks) = ks.length := by
  induction ks with
  | nil => exact Shape.sizes_nil
  | cons k ks ih => simpa [tokens] using ih

@[simp] theorem solid_tokens (ks : List Kind) : Shape.Solid (tokens ks) := by
  induction ks with
  | nil => exact Shape.solid_nil
  | cons k ks ih => simpa [tokens] using ih

@[simp] theorem Cell.solid_shape (c : Cell) : Shape.Solid [c.shape] := by
  cases c <;> simp [shape, kinds]

theorem PlainKey.sizes_shape_pos (k : PlainKey) (ss : List Shape) :
    0 < Shape.sizes (k.shape :: ss) := by
  have hkinds : 0 < k.kinds.length := by cases k <;> exact Nat.succ_pos _
  rw [shape, Shape.sizes_node, sizes_tokens]
  exact Nat.add_pos_left hkinds _

@[simp] theorem PlainKey.solid_shape (k : PlainKey) (ss : List Shape) :
    Shape.Solid (k.shape :: ss) ↔ Shape.Solid ss := by
  cases k <;> simp [shape, kinds]

@[simp] theorem Key.solid_shape (k : Key) (ss : List Shape) :
    Shape.Solid (k.shape :: ss) ↔ Shape.Solid ss := by
  obtain ⟨tap, hold⟩ := k
  have hpos := tap.sizes_shape_pos ((hold.map Hold.shapes).getD [])
  cases hold <;> simp_all [shape, Hold.shapes]

@[simp] theorem Item.solid_shape (i : Item) : Shape.Solid [i.shape] := by
  cases i with
  | key k => simp [shape]
  | chord k => simp [shape]

theorem Row.solid_shape {α : Type} {item : α → Shape} (h : ∀ a, Shape.Solid [item a]) (r : Row α) :
    Shape.Solid [r.shape item] := by
  simp [shape, Shape.mark, Shape.solid_map h]

theorem Block.solid_shape (b : Block) : Shape.Solid [b.shape] := by
  cases b with
  | layout rows => simp [shape, bracedShape, Shape.solid_map (Row.solid_shape Cell.solid_shape)]
  | options backend lines =>
    have hlines : Shape.Solid (lines.map OptionLine.shape) :=
      Shape.solid_map (fun o => by simp [OptionLine.shape, Shape.mark]) lines
    simp [shape, bracedShape, Shape.mark, hlines]
  | key name lines =>
    have hlines : Shape.Solid (lines.map OutLine.shape) :=
      Shape.solid_map (fun o => by simp [OutLine.shape, Shape.mark]) lines
    simp [shape, bracedShape, Shape.mark, hlines]
  | layer name rows =>
    simp [shape, bracedShape, Shape.mark, Shape.solid_map (Row.solid_shape Item.solid_shape)]

end Grammar

end Keyplan
