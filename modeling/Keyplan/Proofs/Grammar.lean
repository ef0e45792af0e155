import Keyplan.Proofs.Description.Forgetting
import Keyplan.Token

/-!
# Grammar — the derivations of a description

A derivation is a tree of one type for each rule of the grammar. `kinds` gives the tokens it
derives and `tree` the description it stands for, without places. Rows have a first item, so no
derivation has an empty row. The grammar is unambiguous: equal tokens have equal derivations.
-/

namespace Keyplan.Grammar

open Token (Kind)

/-! ## Derivations -/

/-- An item of a layout row: `Nk`, `Ns` or `[N]`. -/
inductive Cell where
  | keys (count : Nat)
  | spaces (count : Nat)
  | remap (column : Nat)

/-- A plain key: a name, a character, a string of one character, or a layer in brackets. -/
inductive PlainKey where
  | named (name : String)
  | character (c : Char)
  | string (c : Char)
  | layer (name : String)

/-- What stands behind the tapped key: `@` or `@~`, the held key, and perhaps `[N]`. -/
structure Hold where
  style : HoldStyle
  key : PlainKey
  timeout : Option Nat

structure Key where
  tap : PlainKey
  hold : Option Hold

/-- An item of a layer row: a key, or a key between `>` and `<`. -/
inductive Item where
  | key (k : Key)
  | chord (k : Key)

/-- One or more items, closed by a semicolon. -/
structure Row (α : Type) where
  first : α
  others : List α

/-- `name : "value" ;` -/
structure OptionLine where
  name : String
  value : String

/-- `out backend : "text" ;` -/
structure OutLine where
  backend : String
  text : String

inductive Block where
  | layout (rows : List (Row Cell))
  | options (backend : String) (lines : List OptionLine)
  | key (name : String) (lines : List OutLine)
  | layer (name : String) (rows : List (Row Item))

/-- A file: any sequence of blocks. Only one of them may be a layout (`layouts`). -/
abbrev File := List Block

/-! ## The tokens of a derivation -/

def Cell.kinds : Cell → List Kind
  | keys n => [.keyCount n]
  | spaces n => [.spaceCount n]
  | remap n => [.symbol .openBracket, .integer n, .symbol .closeBracket]

def PlainKey.kinds : PlainKey → List Kind
  | named name => [.identifier name]
  | character c => [.character c]
  | string c => [.string (String.singleton c)]
  | layer name => [.symbol .openBracket, .identifier name, .symbol .closeBracket]

def styleKind : HoldStyle → Kind
  | .permissive => .symbol .atSign
  | .onOtherKeyPress => .symbol .atTilde

def timeoutKinds : Option Nat → List Kind
  | none => []
  | some n => [.symbol .openBracket, .integer n, .symbol .closeBracket]

def Hold.kinds (h : Hold) : List Kind :=
  styleKind h.style :: h.key.kinds ++ timeoutKinds h.timeout

def Key.kinds (k : Key) : List Kind :=
  k.tap.kinds ++ (k.hold.map Hold.kinds).getD []

def Item.kinds : Item → List Kind
  | key k => k.kinds
  | chord k => .symbol .chordOpen :: k.kinds ++ [.symbol .chordClose]

def Row.items {α : Type} (r : Row α) : List α :=
  r.first :: r.others

def Row.kinds {α : Type} (item : α → List Kind) (r : Row α) : List Kind :=
  r.items.flatMap item ++ [.symbol .semicolon]

def OptionLine.kinds (o : OptionLine) : List Kind :=
  [.identifier o.name, .symbol .colon, .string o.value, .symbol .semicolon]

def OutLine.kinds (o : OutLine) : List Kind :=
  [.identifier "out", .identifier o.backend, .symbol .colon, .string o.text, .symbol .semicolon]

/-- The parts of a block between its braces. -/
def braced {α : Type} (part : α → List Kind) (parts : List α) : List Kind :=
  .symbol .openBrace :: parts.flatMap part ++ [.symbol .closeBrace]

def Block.kinds : Block → List Kind
  | layout rows => .identifier "layout" :: braced (Row.kinds Cell.kinds) rows
  | options backend lines =>
    .identifier "options" :: .identifier backend :: braced OptionLine.kinds lines
  | key name lines => .identifier "key" :: .identifier name :: braced OutLine.kinds lines
  | layer name rows =>
    .identifier "layer" :: .identifier name :: braced (Row.kinds Item.kinds) rows

def File.kinds (f : File) : List Kind :=
  f.flatMap Block.kinds

/-! ## The description of a derivation -/

def Cell.tree : Cell → LayoutItem
  | keys n => { shape := .keys n }
  | spaces n => { shape := .spaces n }
  | remap n => { shape := .remap n }

def PlainKey.tree : PlainKey → Keyplan.PlainKey
  | named name => { meaning := .named name }
  | character c => { meaning := .char c (some '\'') }
  | string c => { meaning := .char c (some '\"') }
  | layer name => { meaning := .layer name }

def Hold.tree (h : Hold) : Keyplan.Hold where
  key := h.key.tree
  style := h.style
  timeout := h.timeout.getD 0

def Key.tree (k : Key) : Keyplan.Key where
  tap := k.tap.tree
  hold := k.hold.map Hold.tree

def Item.tree : Item → RowItem
  | key k => .key k.tree
  | chord k => .chord { key := k.tree }

def layoutTree (rows : List (Row Cell)) : LayoutBlock where
  rows := rows.map fun r => { items := r.items.map Cell.tree }

def optionsTree (backend : String) (lines : List OptionLine) : OptionsBlock where
  backend := backend
  options := lines.map fun o => { name := o.name, value := o.value }

def keyTree (name : String) (lines : List OutLine) : KeyDeclaration where
  name := name
  outputs := lines.map fun o => { backend := o.backend, text := o.text }

def layerTree (name : String) (rows : List (Row Item)) : LayerBlock where
  name := name
  rows := rows.map fun r => { items := r.items.map Item.tree }

def Block.layout? : Block → Option (List (Row Cell))
  | layout rows => some rows
  | _ => none

def File.layouts (f : File) : List (List (Row Cell)) :=
  f.filterMap Block.layout?

theorem File.layouts_cons (b : Block) (f : File) :
    File.layouts (b :: f) = File.layouts [b] ++ File.layouts f := by
  cases b <;> rfl

/-- The description of a file whose layout has the given rows; blocks of one kind stay in order. -/
def File.tree (f : File) (layout : List (Row Cell)) : Description where
  layout := layoutTree layout
  options := f.filterMap fun
    | .options backend lines => some (optionsTree backend lines)
    | _ => none
  keys := f.filterMap fun | .key name lines => some (keyTree name lines) | _ => none
  layers := f.filterMap fun | .layer name rows => some (layerTree name rows) | _ => none

/-! ## Unambiguity

Rules are compared in front of what follows them. Only a key can be continued by what follows it:
by a hold, or by a timeout behind a hold. -/

/-- What follows a key and would belong to it. -/
def ContinuesKey : List Kind → Prop
  | .symbol .atSign :: _ => True
  | .symbol .atTilde :: _ => True
  | .symbol .openBracket :: .integer _ :: _ => True
  | _ => False

theorem PlainKey.kinds_append_inj {x y : PlainKey} {r r' : List Kind}
    (h : x.kinds ++ r = y.kinds ++ r') : x = y ∧ r = r' := by
  cases x <;> cases y <;> simp_all [kinds]

theorem Hold.kinds_append_inj {x y : Hold} {r r' : List Kind} (hr : ¬ ContinuesKey r)
    (hr' : ¬ ContinuesKey r') (h : x.kinds ++ r = y.kinds ++ r') : x = y ∧ r = r' := by
  obtain ⟨style, key, timeout⟩ := x
  obtain ⟨style', key', timeout'⟩ := y
  simp only [kinds, List.cons_append, List.append_assoc, List.cons.injEq] at h
  obtain ⟨hs, h⟩ := h
  -- The held key ends by itself; only the timeout behind it is optional.
  obtain ⟨rfl, hrest⟩ := PlainKey.kinds_append_inj h
  have hstyle : style = style' := by cases style <;> cases style' <;> simp_all [styleKind]
  subst hstyle
  -- A timeout on one side only would make the other side's rest continue the key.
  cases timeout with
  | none =>
    cases timeout' with
    | none => exact ⟨rfl, hrest⟩
    | some n =>
      simp only [timeoutKinds, List.nil_append, List.cons_append] at hrest
      rw [hrest] at hr
      exact absurd trivial hr
  | some n =>
    cases timeout' with
    | none =>
      simp only [timeoutKinds, List.nil_append, List.cons_append] at hrest
      rw [← hrest] at hr'
      exact absurd trivial hr'
    | some m => simp_all [timeoutKinds]

theorem Key.kinds_append_inj {x y : Key} {r r' : List Kind} (hr : ¬ ContinuesKey r)
    (hr' : ¬ ContinuesKey r') (h : x.kinds ++ r = y.kinds ++ r') : x = y ∧ r = r' := by
  obtain ⟨tap, hold⟩ := x
  obtain ⟨tap', hold'⟩ := y
  simp only [kinds, List.append_assoc] at h
  obtain ⟨rfl, hrest⟩ := PlainKey.kinds_append_inj h
  -- A hold on one side only would be a continuation on the other.
  have hcont : ∀ (g : Hold) (s : List Kind), ContinuesKey (g.kinds ++ s) := by
    rintro ⟨style, key, timeout⟩ s
    cases style <;> trivial
  cases hold with
  | none =>
    cases hold' with
    | none => exact ⟨rfl, hrest⟩
    | some g =>
      simp only [Option.map_none, Option.map_some, Option.getD_none, Option.getD_some,
        List.nil_append] at hrest
      exact absurd (hrest ▸ hcont g r') hr
  | some g =>
    cases hold' with
    | none =>
      simp only [Option.map_none, Option.map_some, Option.getD_none, Option.getD_some,
        List.nil_append] at hrest
      exact absurd (hrest ▸ hcont g r) hr'
    | some g' =>
      obtain ⟨rfl, hr⟩ := Hold.kinds_append_inj hr hr' hrest
      exact ⟨rfl, hr⟩

theorem Item.not_continuesKey (i : Item) (r : List Kind) : ¬ ContinuesKey (i.kinds ++ r) := by
  cases i with
  | key k =>
    obtain ⟨tap, hold⟩ := k
    cases tap <;> simp [kinds, Key.kinds, PlainKey.kinds, ContinuesKey]
  | chord k => simp [kinds, ContinuesKey]

theorem Item.kinds_append_inj {x y : Item} {r r' : List Kind} (hr : ¬ ContinuesKey r)
    (hr' : ¬ ContinuesKey r') (h : x.kinds ++ r = y.kinds ++ r') : x = y ∧ r = r' := by
  -- A key and a chord differ in their first token.
  have hopen : ∀ (k : Key) (s s' : List Kind), k.kinds ++ s ≠ .symbol .chordOpen :: s' := by
    rintro ⟨tap, hold⟩ s s'
    cases tap <;> simp [Key.kinds, PlainKey.kinds]
  cases x with
  | key k =>
    cases y with
    | key k' =>
      obtain ⟨rfl, hrest⟩ := Key.kinds_append_inj hr hr' h
      exact ⟨rfl, hrest⟩
    | chord k' => exact absurd h (hopen k r _)
  | chord k =>
    cases y with
    | key k' => exact absurd h.symm (hopen k' r' _)
    | chord k' =>
      simp only [kinds, List.cons_append, List.append_assoc, List.cons.injEq, true_and,
        List.nil_append] at h
      obtain ⟨rfl, hrest⟩ := Key.kinds_append_inj (by simp [ContinuesKey])
        (by simp [ContinuesKey]) h
      exact ⟨rfl, (List.cons.inj hrest).2⟩

/-- A list of parts that is closed by a token is determined by its tokens, when the parts are: `P`
holds of what can follow a part. -/
theorem flatMap_append_inj {α : Type} {part : α → List Kind} {close : Kind} {P : List Kind → Prop}
    (hpart : ∀ a b r r', P r → P r' → part a ++ r = part b ++ r' → a = b ∧ r = r')
    (hP : ∀ a r, P (part a ++ r)) (hPclose : ∀ r, P (close :: r))
    (hclose : ∀ a r r', part a ++ r ≠ close :: r') {as bs : List α} {r r' : List Kind}
    (h : as.flatMap part ++ close :: r = bs.flatMap part ++ close :: r') : as = bs ∧ r = r' := by
  -- Behind a part comes another part or the closing token.
  have hfollow : ∀ (cs : List α) (s : List Kind), P (cs.flatMap part ++ close :: s) := by
    intro cs s
    cases cs with
    | nil => exact hPclose s
    | cons c cs =>
      rw [List.flatMap_cons, List.append_assoc]
      exact hP c _
  induction as generalizing bs with
  | nil =>
    cases bs with
    | nil => exact ⟨rfl, (List.cons.inj h).2⟩
    | cons b bs =>
      rw [List.flatMap_cons, List.append_assoc] at h
      exact absurd h.symm (hclose b _ r)
  | cons a as ih =>
    cases bs with
    | nil =>
      rw [List.flatMap_cons, List.append_assoc] at h
      exact absurd h (hclose a _ r')
    | cons b bs =>
      rw [List.flatMap_cons, List.flatMap_cons, List.append_assoc, List.append_assoc] at h
      obtain ⟨rfl, htail⟩ := hpart a b _ _ (hfollow as r) (hfollow bs r') h
      obtain ⟨rfl, hrest⟩ := ih htail
      exact ⟨rfl, hrest⟩

theorem Row.kinds_append_inj {α : Type} {item : α → List Kind}
    (hitems : ∀ {as bs : List α} {s s' : List Kind}, as.flatMap item ++ .symbol .semicolon :: s
      = bs.flatMap item ++ .symbol .semicolon :: s' → as = bs ∧ s = s')
    {x y : Row α} {r r' : List Kind} (h : x.kinds item ++ r = y.kinds item ++ r') :
    x = y ∧ r = r' := by
  obtain ⟨first, others⟩ := x
  obtain ⟨first', others'⟩ := y
  simp only [kinds, List.append_assoc, List.singleton_append] at h
  obtain ⟨hi, hrest⟩ := hitems h
  obtain ⟨rfl, rfl⟩ := List.cons.inj hi
  exact ⟨rfl, hrest⟩

theorem cellRow_kinds_append_inj {x y : Row Cell} {r r' : List Kind}
    (h : x.kinds Cell.kinds ++ r = y.kinds Cell.kinds ++ r') : x = y ∧ r = r' := by
  refine Row.kinds_append_inj (fun {as bs s s'} h => ?_) h
  refine flatMap_append_inj (P := fun _ => True) ?_ (fun _ _ => trivial) (fun _ => trivial) ?_ h
  · intro a b r r' _ _ h
    cases a <;> cases b <;> simp_all [Cell.kinds]
  · intro a r r' h
    cases a <;> simp [Cell.kinds] at h

theorem itemRow_kinds_append_inj {x y : Row Item} {r r' : List Kind}
    (h : x.kinds Item.kinds ++ r = y.kinds Item.kinds ++ r') : x = y ∧ r = r' := by
  refine Row.kinds_append_inj (fun {as bs s s'} h => ?_) h
  -- An item never continues the key before it, and a semicolon does not either.
  refine flatMap_append_inj (P := fun s => ¬ ContinuesKey s) ?_ Item.not_continuesKey
    (fun _ => by simp [ContinuesKey]) ?_ h
  · intro a b r r' hr hr' h
    exact Item.kinds_append_inj hr hr' h
  · rintro (⟨tap, hold⟩ | k) r r' h
    · cases tap <;> simp [Item.kinds, Key.kinds, PlainKey.kinds] at h
    · simp [Item.kinds] at h

/-- The parts of a block are determined by its tokens, when each part is and none starts with the
closing brace. -/
theorem braced_append_inj {α : Type} {part : α → List Kind}
    (hpart : ∀ a b r r', part a ++ r = part b ++ r' → a = b ∧ r = r')
    (hclose : ∀ a r r', part a ++ r ≠ .symbol .closeBrace :: r') {as bs : List α}
    {r r' : List Kind} (h : braced part as ++ r = braced part bs ++ r') : as = bs ∧ r = r' := by
  simp only [braced, List.cons_append, List.append_assoc, List.cons.injEq, true_and,
    List.nil_append] at h
  exact flatMap_append_inj (P := fun _ => True) (fun a b r r' _ _ => hpart a b r r')
    (fun _ _ => trivial) (fun _ => trivial) hclose h

theorem Row.kinds_append_ne {α : Type} {item : α → List Kind}
    (hitem : ∀ a r r', item a ++ r ≠ .symbol .closeBrace :: r') (x : Row α) (r r' : List Kind) :
    x.kinds item ++ r ≠ .symbol .closeBrace :: r' := by
  simp only [kinds, items, List.flatMap_cons, List.append_assoc]
  exact hitem x.first _ r'

theorem cell_kinds_append_ne (c : Cell) (r r' : List Kind) :
    c.kinds ++ r ≠ .symbol .closeBrace :: r' := by
  cases c <;> simp [Cell.kinds]

theorem item_kinds_append_ne (i : Item) (r r' : List Kind) :
    i.kinds ++ r ≠ .symbol .closeBrace :: r' := by
  obtain (⟨tap, hold⟩ | k) := i
  · cases tap <;> simp [Item.kinds, Key.kinds, PlainKey.kinds]
  · simp [Item.kinds]

theorem OptionLine.kinds_append_inj {x y : OptionLine} {r r' : List Kind}
    (h : x.kinds ++ r = y.kinds ++ r') : x = y ∧ r = r' := by
  obtain ⟨name, value⟩ := x
  obtain ⟨name', value'⟩ := y
  simp_all [kinds]

theorem OutLine.kinds_append_inj {x y : OutLine} {r r' : List Kind}
    (h : x.kinds ++ r = y.kinds ++ r') : x = y ∧ r = r' := by
  obtain ⟨backend, text⟩ := x
  obtain ⟨backend', text'⟩ := y
  simp_all [kinds]

theorem Block.kinds_append_inj {x y : Block} {r r' : List Kind}
    (h : x.kinds ++ r = y.kinds ++ r') : x = y ∧ r = r' := by
  -- The first word tells the kind of a block.
  cases x with
  | layout rows =>
    cases y <;> simp only [kinds, List.cons_append, List.cons.injEq, Kind.identifier.injEq,
      String.reduceEq, false_and, true_and] at h
    obtain ⟨rfl, hrest⟩ := braced_append_inj (fun _ _ _ _ => cellRow_kinds_append_inj)
      (Row.kinds_append_ne cell_kinds_append_ne) h
    exact ⟨rfl, hrest⟩
  | options backend lines =>
    cases y <;> simp only [kinds, List.cons_append, List.cons.injEq, Kind.identifier.injEq,
      String.reduceEq, false_and, true_and] at h
    obtain ⟨rfl, h⟩ := h
    obtain ⟨rfl, hrest⟩ := braced_append_inj (fun _ _ _ _ => OptionLine.kinds_append_inj)
      (fun a r r' h => by simp [OptionLine.kinds] at h) h
    exact ⟨rfl, hrest⟩
  | key name lines =>
    cases y <;> simp only [kinds, List.cons_append, List.cons.injEq, Kind.identifier.injEq,
      String.reduceEq, false_and, true_and] at h
    obtain ⟨rfl, h⟩ := h
    obtain ⟨rfl, hrest⟩ := braced_append_inj (fun _ _ _ _ => OutLine.kinds_append_inj)
      (fun a r r' h => by simp [OutLine.kinds] at h) h
    exact ⟨rfl, hrest⟩
  | layer name rows =>
    cases y <;> simp only [kinds, List.cons_append, List.cons.injEq, Kind.identifier.injEq,
      String.reduceEq, false_and, true_and] at h
    obtain ⟨rfl, h⟩ := h
    obtain ⟨rfl, hrest⟩ := braced_append_inj (fun _ _ _ _ => itemRow_kinds_append_inj)
      (Row.kinds_append_ne item_kinds_append_ne) h
    exact ⟨rfl, hrest⟩

/-- The grammar is unambiguous: a file has one derivation. -/
theorem File.kinds_inj {f g : File} (h : f.kinds = g.kinds) : f = g := by
  -- No token closes a file, so one that starts no block is put behind both sides.
  have hclosed : f.flatMap Block.kinds ++ [.endOfFile] = g.flatMap Block.kinds ++ [.endOfFile] :=
    congrArg (fun ks => ks ++ [Kind.endOfFile]) h
  refine (flatMap_append_inj (P := fun _ => True) (fun _ _ _ _ _ _ => Block.kinds_append_inj)
    (fun _ _ => trivial) (fun _ => trivial) ?_ hclosed).1
  intro b r r' hb
  cases b <;> simp [Block.kinds] at hb

end Keyplan.Grammar
