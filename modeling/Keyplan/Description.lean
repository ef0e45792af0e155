import Keyplan.Span

/-!
A keyboard description as written: a layout block, options blocks, key declarations and layer
blocks, every part with its place. `spelling` gives the characters a part is written with.
-/

namespace Keyplan

def decimal : Int → List Char
  | .ofNat n => Nat.toDigits 10 n
  | .negSucc n => '-' :: Nat.toDigits 10 (n + 1)

/-! ## Layout -/

namespace LayoutItem

/-- What an item of a layout row adds to the row. -/
inductive Shape where
  /-- `Nk`: consecutive keys. -/
  | keys (count : Int)
  /-- `Ns`: consecutive spacer cells. -/
  | spaces (count : Int)
  /-- `[N]`: one key that is wired to matrix column `N`. -/
  | remap (column : Int)
  deriving DecidableEq, Repr

def Shape.spelling : Shape → List Char
  | keys count => decimal count ++ ['k']
  | spaces count => decimal count ++ ['s']
  | remap column => '[' :: decimal column ++ [']']

end LayoutItem

structure LayoutItem where
  shape : LayoutItem.Shape
  span : Span := {}
  deriving DecidableEq, Repr

def LayoutItem.text (i : LayoutItem) : String :=
  String.ofList i.shape.spelling

structure LayoutRow where
  items : List LayoutItem
  semicolon : Span := {}
  span : Span := {}
  deriving DecidableEq, Repr

structure LayoutBlock where
  rows : List LayoutRow
  span : Span := {}
  deriving DecidableEq, Repr

/-! ## Options and key declarations -/

/-- `name: "value";` -/
structure OptionLine where
  name : String
  nameSpan : Span := {}
  value : String
  valueSpan : Span := {}
  span : Span := {}
  deriving DecidableEq, Repr

structure OptionsBlock where
  backend : String
  backendSpan : Span := {}
  options : List OptionLine
  span : Span := {}
  deriving DecidableEq, Repr

/-- `out backend: "text";` -/
structure KeyOutput where
  backend : String
  backendSpan : Span := {}
  text : String
  span : Span := {}
  deriving DecidableEq, Repr

structure KeyDeclaration where
  name : String
  nameSpan : Span := {}
  outputs : List KeyOutput
  span : Span := {}
  deriving DecidableEq, Repr

/-! ## Layers -/

namespace PlainKey

/-- What a plain key names. A character key may remember the quote it was written with. -/
inductive Meaning where
  | named (name : String)
  | layer (name : String)
  | char (c : Char) (quote : Option Char := none)
  deriving DecidableEq, Repr

/-- The quote a character is written with: the wanted one, unless the character could not be read
back between such quotes. A backslash has no escape between single quotes but starts one between
double quotes. -/
def quoteFor (c : Char) (wanted : Option Char) : Char :=
  let q := wanted.getD '\''
  if c = '\\' then '\''
  else if c = '\'' ∧ q = '\'' then '\"'
  else if c = '\"' ∧ q = '\"' then '\''
  else q

def Meaning.spelling : Meaning → List Char
  | named name => name.toList
  | layer name => '[' :: name.toList ++ [']']
  | char c quote => [quoteFor c quote, c, quoteFor c quote]

end PlainKey

structure PlainKey where
  meaning : PlainKey.Meaning
  span : Span := {}
  deriving DecidableEq, Repr

def PlainKey.spelling (k : PlainKey) : List Char :=
  k.meaning.spelling

/-- When a held key counts as held. -/
inductive HoldStyle where
  /-- Written `tap@hold`: once another key has been pressed and released. -/
  | permissive
  /-- Written `tap@~hold`: as soon as another key is pressed. -/
  | onOtherKeyPress
  deriving DecidableEq, Repr

def HoldStyle.spelling : HoldStyle → List Char
  | permissive => ['@']
  | onOtherKeyPress => ['@', '~']

/-- What a key does while it is held. A timeout of zero leaves the timeout to the options. -/
structure Hold where
  key : PlainKey
  style : HoldStyle
  timeout : Nat := 0
  deriving DecidableEq, Repr

def Hold.spelling (h : Hold) : List Char :=
  h.style.spelling ++ h.key.spelling
    ++ (if h.timeout = 0 then [] else '[' :: Nat.toDigits 10 h.timeout ++ [']'])

/-- A key: plain, or with a second meaning while it is held. -/
structure Key where
  tap : PlainKey
  hold : Option Hold := none
  span : Span := {}
  deriving DecidableEq, Repr

namespace Key

def spelling (k : Key) : List Char :=
  k.tap.spelling ++ (k.hold.map Hold.spelling).getD []

def text (k : Key) : String :=
  String.ofList k.spelling

/-- The plain keys of a key, the tapped one first. -/
def plainKeys (k : Key) : List PlainKey :=
  k.tap :: (k.hold.map Hold.key).toList

end Key

/-- `>key<`: a key that is pressed by pressing its two neighbours together. -/
structure Chord where
  key : Key
  span : Span := {}
  deriving DecidableEq, Repr

def Chord.spelling (c : Chord) : List Char :=
  '>' :: c.key.spelling ++ ['<']

def Chord.text (c : Chord) : String :=
  String.ofList c.spelling

inductive RowItem where
  | key (k : Key)
  | chord (c : Chord)
  deriving DecidableEq, Repr

namespace RowItem

def span : RowItem → Span
  | key k => k.span
  | chord c => c.span

def spelling : RowItem → List Char
  | key k => k.spelling
  | chord c => c.spelling

def text (i : RowItem) : String :=
  String.ofList i.spelling

end RowItem

structure LayerRow where
  items : List RowItem
  semicolon : Span := {}
  span : Span := {}
  deriving DecidableEq, Repr

structure LayerBlock where
  name : String
  nameSpan : Span := {}
  rows : List LayerRow
  span : Span := {}
  deriving DecidableEq, Repr

/-! ## Whole descriptions -/

/-- A keyboard description; blocks of one kind are kept in the order they were written. -/
structure Description where
  layout : LayoutBlock
  options : List OptionsBlock := []
  keys : List KeyDeclaration := []
  layers : List LayerBlock := []
  span : Span := {}
  deriving DecidableEq, Repr

end Keyplan
