/-!
Text as it is read from a file: characters, except that a byte which belongs to no valid UTF-8
encoding stands for itself. `Text.ofBytes` and `Text.toBytes` go back and forth.
-/

namespace Keyplan

/-- One readable unit of a text: a character, or a byte that is part of no valid encoding. -/
inductive Glyph where
  | char (c : Char)
  | stray (b : UInt8)
  deriving DecidableEq, Repr, Inhabited

namespace Glyph

/-- The bytes a glyph was read from. -/
def bytes : Glyph → List UInt8
  | .char c => String.utf8EncodeChar c
  | .stray b => [b]

/-- The character shown for a glyph; a stray byte is shown as the replacement character. -/
def shown : Glyph → Char
  | .char c => c
  | .stray _ => '\uFFFD'

/-- How many columns a glyph advances the cursor: one for a character and for a byte that has the
form of a lead byte, none for any other stray byte. -/
def columns : Glyph → Nat
  | .char _ => 1
  | .stray b => if 0xC0 ≤ b.toNat ∧ b.toNat ≤ 0xF7 then 1 else 0

end Glyph

/-- A text is its glyphs in order. -/
abbrev Text := List Glyph

namespace Text

/-- The glyphs of `b` from byte `i` on. -/
def ofBytesFrom (b : ByteArray) (i : Nat) : Text :=
  if h : i < b.size then
    match b.utf8DecodeChar? i with
    | some c => .char c :: ofBytesFrom b (i + c.utf8Size)
    -- one byte at a time: a character may start within a broken encoding
    | none => .stray b[i] :: ofBytesFrom b (i + 1)
  else
    []
termination_by b.size - i
decreasing_by
  · have := c.utf8Size_pos
    omega
  · omega

/-- Reads bytes as UTF-8. -/
def ofBytes (b : ByteArray) : Text :=
  ofBytesFrom b 0

def toBytes (t : Text) : List UInt8 :=
  t.flatMap Glyph.bytes

/-! ## Bytes and back -/

theorem toList_extract_size (a : ByteArray) (k : Nat) :
    (a.extract k a.size).data.toList = a.data.toList.drop k := by
  rw [ByteArray.data_extract, Array.toList_extract, List.extract_eq_take_drop]
  apply List.take_of_length_le
  rw [List.length_drop]
  exact Nat.le_refl _

/-- An encoding stands in front of what follows it. -/
theorem drop_eq_of_utf8DecodeChar? {b : ByteArray} {i : Nat} {c : Char}
    (h : b.utf8DecodeChar? i = some c) :
    b.data.toList.drop i = String.utf8EncodeChar c ++ b.data.toList.drop (i + c.utf8Size) := by
  rw [ByteArray.utf8DecodeChar?_eq_utf8DecodeChar?_extract] at h
  have hlist := congrArg (fun a : ByteArray => a.data.toList)
    (ByteArray.eq_of_utf8DecodeChar?_eq_some h)
  simp only [ByteArray.data_append, Array.toList_append, List.data_toByteArray] at hlist
  rw [toList_extract_size, toList_extract_size, toList_extract_size, List.drop_drop] at hlist
  exact hlist

theorem toBytes_ofBytesFrom (b : ByteArray) (i : Nat) :
    (ofBytesFrom b i).toBytes = b.data.toList.drop i := by
  fun_induction ofBytesFrom b i with
  | case1 i h c hc ih =>
    rw [toBytes, List.flatMap_cons, ← toBytes, ih, drop_eq_of_utf8DecodeChar? hc]
    rfl
  | case2 i h hc ih =>
    rw [toBytes, List.flatMap_cons, ← toBytes, ih]
    have hi : i < b.data.toList.length := h
    rw [List.drop_eq_getElem_cons hi]
    rfl
  | case3 i h =>
    exact (List.drop_eq_nil_of_le (Nat.le_of_not_lt h)).symm

/-- Reading bytes loses nothing. -/
theorem toBytes_ofBytes (b : ByteArray) : (ofBytes b).toBytes = b.data.toList :=
  toBytes_ofBytesFrom b 0

/-! ## Characters -/

/-- A text without stray bytes. -/
def ofChars (cs : List Char) : Text :=
  cs.map .char

def ofString (s : String) : Text :=
  ofChars s.toList

def shown (t : Text) : String :=
  String.ofList (t.map Glyph.shown)

def byteCount (t : Text) : Nat :=
  t.toBytes.length

/-- The texts of `ts` with `sep` between neighbours. -/
def join (sep : Text) (ts : List Text) : Text :=
  List.intercalate sep ts

end Text

end Keyplan
