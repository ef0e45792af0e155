import Keyplan.Description

/-!
# Forgetting — descriptions without their places

`forget f` drops every place of a description and passes what its plain keys mean through `f`.
`unlocated` drops the places only; `bare` also drops the quotes that character keys were written
with, which leaves what a description means.
-/

namespace Keyplan

open PlainKey (Meaning)

/-! ## Parts of a description -/

def LayoutItem.unlocated (i : LayoutItem) : LayoutItem where
  shape := i.shape

def LayoutRow.unlocated (r : LayoutRow) : LayoutRow where
  items := r.items.map LayoutItem.unlocated

def LayoutBlock.unlocated (b : LayoutBlock) : LayoutBlock where
  rows := b.rows.map LayoutRow.unlocated

def OptionLine.unlocated (o : OptionLine) : OptionLine where
  name := o.name
  value := o.value

def OptionsBlock.unlocated (b : OptionsBlock) : OptionsBlock where
  backend := b.backend
  options := b.options.map OptionLine.unlocated

def KeyOutput.unlocated (o : KeyOutput) : KeyOutput where
  backend := o.backend
  text := o.text

def KeyDeclaration.unlocated (d : KeyDeclaration) : KeyDeclaration where
  name := d.name
  outputs := d.outputs.map KeyOutput.unlocated

def PlainKey.Meaning.unquoted : Meaning → Meaning
  | char c _ => char c
  | m => m

def PlainKey.forget (f : Meaning → Meaning) (k : PlainKey) : PlainKey where
  meaning := f k.meaning

def Hold.forget (f : Meaning → Meaning) (h : Hold) : Hold where
  key := h.key.forget f
  style := h.style
  timeout := h.timeout

def Key.forget (f : Meaning → Meaning) (k : Key) : Key where
  tap := k.tap.forget f
  hold := k.hold.map (Hold.forget f)

def Chord.forget (f : Meaning → Meaning) (c : Chord) : Chord where
  key := c.key.forget f

def RowItem.forget (f : Meaning → Meaning) : RowItem → RowItem
  | key k => key (k.forget f)
  | chord c => chord (c.forget f)

def LayerRow.forget (f : Meaning → Meaning) (r : LayerRow) : LayerRow where
  items := r.items.map (RowItem.forget f)

def LayerBlock.forget (f : Meaning → Meaning) (b : LayerBlock) : LayerBlock where
  name := b.name
  rows := b.rows.map (LayerRow.forget f)

/-! ## Whole descriptions -/

namespace Description

def forget (f : Meaning → Meaning) (d : Description) : Description where
  layout := d.layout.unlocated
  options := d.options.map OptionsBlock.unlocated
  keys := d.keys.map KeyDeclaration.unlocated
  layers := d.layers.map (LayerBlock.forget f)

def unlocated (d : Description) : Description :=
  d.forget id

/-- What a description means: no places, and no quotes of character keys. -/
def bare (d : Description) : Description :=
  d.forget Meaning.unquoted

end Description

/-! ## Forgetting twice -/

variable (f g : Meaning → Meaning)

@[simp] theorem LayoutItem.unlocated_unlocated (i : LayoutItem) :
    i.unlocated.unlocated = i.unlocated := rfl

@[simp] theorem LayoutRow.unlocated_unlocated (r : LayoutRow) :
    r.unlocated.unlocated = r.unlocated := by
  simp [unlocated, Function.comp_def]

@[simp] theorem LayoutBlock.unlocated_unlocated (b : LayoutBlock) :
    b.unlocated.unlocated = b.unlocated := by
  simp [unlocated, Function.comp_def]

@[simp] theorem OptionsBlock.unlocated_unlocated (b : OptionsBlock) :
    b.unlocated.unlocated = b.unlocated := by
  simp [unlocated, Function.comp_def, OptionLine.unlocated]

@[simp] theorem KeyDeclaration.unlocated_unlocated (d : KeyDeclaration) :
    d.unlocated.unlocated = d.unlocated := by
  simp [unlocated, Function.comp_def, KeyOutput.unlocated]

@[simp] theorem Key.forget_forget (k : Key) : (k.forget f).forget g = k.forget (g ∘ f) := by
  cases hk : k.hold with
  | none => simp [forget, PlainKey.forget, hk]
  | some h => simp [forget, PlainKey.forget, Hold.forget, hk]

@[simp] theorem RowItem.forget_forget (i : RowItem) : (i.forget f).forget g = i.forget (g ∘ f) := by
  cases i with
  | key k => simp [forget]
  | chord c => simp [forget, Chord.forget]

@[simp] theorem LayerBlock.forget_forget (b : LayerBlock) :
    (b.forget f).forget g = b.forget (g ∘ f) := by
  simp [forget, LayerRow.forget, Function.comp_def]

theorem Description.forget_forget (d : Description) :
    (d.forget f).forget g = d.forget (g ∘ f) := by
  simp [forget, Function.comp_def]

/-- What a description means does not depend on its places. -/
theorem Description.bare_unlocated (d : Description) : d.unlocated.bare = d.bare := by
  rw [unlocated, bare, forget_forget, Function.comp_id, bare]

/-! ## Spelling -/

variable {f : Meaning → Meaning}

theorem Key.spelling_forget (hf : ∀ meaning, (f meaning).spelling = meaning.spelling) (k : Key) :
    (k.forget f).spelling = k.spelling := by
  obtain ⟨tap, hold, span⟩ := k
  cases hold with
  | none => simp [forget, spelling, PlainKey.forget, PlainKey.spelling, hf]
  | some h =>
    simp [forget, spelling, PlainKey.forget, PlainKey.spelling, Hold.forget, Hold.spelling, hf]

theorem Chord.spelling_forget (hf : ∀ meaning, (f meaning).spelling = meaning.spelling)
    (c : Chord) : (c.forget f).spelling = c.spelling := by
  show '>' :: (c.key.forget f).spelling ++ ['<'] = '>' :: c.key.spelling ++ ['<']
  rw [Key.spelling_forget hf]

theorem RowItem.spelling_forget (hf : ∀ meaning, (f meaning).spelling = meaning.spelling)
    (i : RowItem) : (i.forget f).spelling = i.spelling := by
  cases i with
  | key k => exact k.spelling_forget hf
  | chord c => exact c.spelling_forget hf

end Keyplan
