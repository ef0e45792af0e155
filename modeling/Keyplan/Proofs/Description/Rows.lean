import Keyplan.Proofs.Format.Canonical
import Keyplan.Proofs.Grammar.Completeness

/-!
# Rows — items that are written down are read back

The items of a row are written with blanks between them. No item goes on with the one before it,
and none can be read in two ways, so the row that is read has the same items. A character may be
read with other quotes than it remembers; nothing else about an item changes.
-/

namespace Keyplan

open Format (Spells spells_nil stopsAt_cons)
open Grammar (ignoresRequoting_unquoted styleKind timeoutKinds)
open Lexeme (isBlank isLineEnd isNamePart)
open PlainKey (Meaning)
open Token (Kind StopsAt kindsOf)

/-! ## 1. Items that can be written -/

/-- A name is an identifier. A character is no line end, and its quote is a single or a double one
if it remembers any. -/
def PlainKey.Meaning.Spellable : Meaning → Prop
  | named name => (Kind.identifier name).Spellable
  | layer name => (Kind.identifier name).Spellable
  | char c quote => c ≠ '\n' ∧ c ≠ '\r' ∧ (quote = none ∨ quote = some '\'' ∨ quote = some '\"')

/-- A timeout fits a word with a sign. -/
def Hold.Spellable (h : Hold) : Prop :=
  h.key.meaning.Spellable ∧ h.timeout < Word.signedEnd

def Key.Spellable (k : Key) : Prop :=
  k.tap.meaning.Spellable ∧ ∀ h ∈ k.hold, h.Spellable

def RowItem.Spellable : RowItem → Prop
  | key k => k.Spellable
  | chord c => c.key.Spellable

/-- The texts of some items, with one or more blanks between two of them. -/
inductive RowItem.Joined : List RowItem → List Char → Prop
  | last (i : RowItem) : Joined [i] i.spelling
  | more (i : RowItem) {items : List RowItem} {gap cs : List Char} (one : gap ≠ [])
      (blank : ∀ c ∈ gap, isBlank c) (rest : Joined items cs) :
      Joined (i :: items) (i.spelling ++ gap ++ cs)

/-! ## 2. What is written for an item -/

/-- A plain key as it is written, whatever quote it remembers. -/
theorem PlainKey.exists_derivation {k : PlainKey} (h : k.meaning.Spellable) :
    ∃ x : Grammar.PlainKey, (∀ kind ∈ x.kinds, kind.Spellable) ∧ x.tree.spelling = k.spelling ∧
      x.tree.forget Meaning.unquoted = k.forget Meaning.unquoted := by
  obtain ⟨meaning, span⟩ := k
  cases meaning with
  | named name =>
    have hname : (Kind.identifier name).Spellable := h
    exact ⟨.named name, by simpa [Grammar.PlainKey.kinds] using hname, rfl, rfl⟩
  | layer name =>
    have hname : (Kind.identifier name).Spellable := h
    refine ⟨.layer name, fun kind hkind => ?_, rfl, rfl⟩
    simp only [Grammar.PlainKey.kinds, List.mem_cons, List.not_mem_nil, or_false] at hkind
    rcases hkind with rfl | rfl | rfl
    · trivial
    · exact hname
    · trivial
  | char c quote =>
    obtain ⟨hfeed, hreturn, hquote⟩ := h
    have hline : isLineEnd c = false := by simp [isLineEnd, hfeed, hreturn]
    rcases hquote with rfl | rfl | rfl
    -- Without a quote of its own, a character is written between single ones.
    · exact ⟨.character c, by simpa [Grammar.PlainKey.kinds, Kind.Spellable] using hline, rfl, rfl⟩
    · exact ⟨.character c, by simpa [Grammar.PlainKey.kinds, Kind.Spellable] using hline, rfl, rfl⟩
    · exact ⟨.string c, by simpa [Grammar.PlainKey.kinds, Kind.Spellable] using hline, rfl, rfl⟩

/-- A timeout of zero is not written. -/
theorem Hold.exists_derivation {h : Hold} (hs : h.Spellable) :
    ∃ x : Grammar.Hold, (∀ kind ∈ x.kinds, kind.Spellable) ∧ x.tree.spelling = h.spelling ∧
      x.tree.forget Meaning.unquoted = h.forget Meaning.unquoted := by
  obtain ⟨key, style, timeout⟩ := h
  obtain ⟨hkey, htimeout⟩ := hs
  obtain ⟨x, hx, hspelling, hforget⟩ := PlainKey.exists_derivation hkey
  refine ⟨⟨style, x, some timeout⟩, ?_, ?_, ?_⟩
  · intro kind hkind
    simp only [Grammar.Hold.kinds, timeoutKinds, List.cons_append, List.mem_cons, List.mem_append,
      List.not_mem_nil, or_false] at hkind
    rcases hkind with rfl | hkind | rfl | rfl | rfl
    · cases style <;> trivial
    · exact hx kind hkind
    · trivial
    · exact htimeout
    · trivial
  · show style.spelling ++ x.tree.spelling ++ _ = _
    rw [hspelling]
    rfl
  · simp only [Grammar.Hold.tree, Hold.forget, hforget, Option.getD_some]

theorem Key.exists_derivation {k : Key} (h : k.Spellable) :
    ∃ x : Grammar.Key, (∀ kind ∈ x.kinds, kind.Spellable) ∧ x.tree.spelling = k.spelling ∧
      x.tree.forget Meaning.unquoted = k.forget Meaning.unquoted := by
  obtain ⟨tap, hold, span⟩ := k
  obtain ⟨htap, hhold⟩ := h
  obtain ⟨x, hx, hspelling, hforget⟩ := PlainKey.exists_derivation htap
  cases hold with
  | none =>
    refine ⟨⟨x, none⟩, by simpa [Grammar.Key.kinds] using hx, ?_, ?_⟩
    · simp [Grammar.Key.tree, Key.spelling, hspelling]
    · simp [Grammar.Key.tree, Key.forget, hforget]
  | some hold =>
    obtain ⟨y, hy, hspelling', hforget'⟩ := Hold.exists_derivation (hhold hold rfl)
    refine ⟨⟨x, some y⟩, fun kind hkind => ?_, ?_, ?_⟩
    · rcases List.mem_append.mp hkind with hkind | hkind
      · exact hx kind hkind
      · exact hy kind hkind
    · simp [Grammar.Key.tree, Key.spelling, hspelling, hspelling']
    · simp [Grammar.Key.tree, Key.forget, hforget, hforget']

theorem RowItem.exists_derivation {i : RowItem} (h : i.Spellable) :
    ∃ x : Grammar.Item, (∀ kind ∈ x.kinds, kind.Spellable) ∧ x.tree.spelling = i.spelling ∧
      x.tree.forget Meaning.unquoted = i.forget Meaning.unquoted := by
  cases i with
  | key k =>
    obtain ⟨x, hx, hspelling, hforget⟩ := Key.exists_derivation h
    exact ⟨.key x, hx, hspelling, congrArg RowItem.key hforget⟩
  | chord c =>
    obtain ⟨x, hx, hspelling, hforget⟩ := Key.exists_derivation h
    refine ⟨.chord x, fun kind hkind => ?_, ?_, ?_⟩
    · simp only [Grammar.Item.kinds, List.cons_append, List.mem_cons, List.mem_append,
        List.not_mem_nil, or_false] at hkind
      rcases hkind with rfl | hkind | rfl
      · trivial
      · exact hx kind hkind
      · trivial
    · show '>' :: x.tree.spelling ++ ['<'] = _
      rw [hspelling]
      rfl
    · show RowItem.chord { key := x.tree.forget Meaning.unquoted } = _
      rw [hforget]
      rfl

/-- The text of an item is read as the tokens of a derivation that stands for the item. -/
theorem RowItem.exists_spells {i : RowItem} (h : i.Spellable) :
    ∃ x : Grammar.Item, Spells i.spelling x.kinds ∧
      x.tree.forget Meaning.unquoted = i.forget Meaning.unquoted := by
  obtain ⟨x, hx, hspelling, hforget⟩ := exists_derivation h
  refine ⟨x.canonical, ?_, ?_⟩
  · rw [← hspelling]
    exact x.spells hx
  · rw [x.canonical_forget ignoresRequoting_unquoted, hforget]

/-! ## 3. Rows -/

theorem RowItem.Joined.exists_spells {items : List RowItem} {cs : List Char}
    (h : Joined items cs) (hitems : ∀ i ∈ items, i.Spellable) :
    ∃ x : Grammar.Row Grammar.Item, Spells cs (x.items.flatMap Grammar.Item.kinds) ∧
      x.items.map (fun y => y.tree.forget Meaning.unquoted) =
        items.map (RowItem.forget Meaning.unquoted) := by
  induction h with
  | last i =>
    obtain ⟨x, hspells, hforget⟩ := RowItem.exists_spells (hitems i List.mem_cons_self)
    refine ⟨⟨x, []⟩, ?_, ?_⟩
    · simpa [Grammar.Row.items] using hspells
    · simp [Grammar.Row.items, hforget]
  | @more i items gap cs one blank rest ih =>
    obtain ⟨x, hspells, hforget⟩ := RowItem.exists_spells (hitems i List.mem_cons_self)
    obtain ⟨row, hrow, hrest⟩ := ih fun j hj => hitems j (List.mem_cons_of_mem _ hj)
    -- A blank ends a name, so the gap keeps the items apart.
    have hstop : StopsAt isNamePart (gap ++ cs) := by
      obtain ⟨c, gap, rfl⟩ := List.exists_cons_of_ne_nil one
      have hc : isNamePart c = false := by
        have hblank := blank c List.mem_cons_self
        simp only [isBlank, Bool.or_eq_true, beq_iff_eq] at hblank
        rcases hblank with rfl | rfl <;> rfl
      exact stopsAt_cons hc
    refine ⟨⟨x, row.items⟩, ?_, ?_⟩
    · rw [List.append_assoc]
      exact hspells.append (hrow.gap blank) hstop
    · simp only [Grammar.Row.items, List.map_cons, hforget]
      rw [← hrest]
      rfl

/-- Take one or more row items whose names are identifiers, whose characters are no line ends, and
whose timeouts fit a word with a sign. Their texts, joined by one or more blanks and followed by a
semicolon, are read as one row up to the end. It has the same items, up to places and the quotes of
characters. -/
theorem Parser.layerRow_joined {items : List RowItem} {cs : List Char}
    (h : RowItem.Joined items cs) (hitems : ∀ i ∈ items, i.Spellable) (stop : Position) :
    ∃ row rest,
      layerRow stop (TokenStream.ofText
        (Text.ofBytes (String.ofList (cs ++ [';'])).toUTF8)).tokens = .ok (row, rest) ∧
      rest.1 = [] ∧
      row.items.map (RowItem.forget Meaning.unquoted) =
        items.map (RowItem.forget Meaning.unquoted) := by
  obtain ⟨x, hspells, hforget⟩ := h.exists_spells hitems
  have hsource : Text.ofBytes (String.ofList (cs ++ [';'])).toUTF8 = Text.ofChars (cs ++ [';']) := by
    rw [Text.ofBytes_toUTF8, Text.ofString, String.toList_ofList]
  have hkinds : kindsOf (cs ++ [';']) = x.kinds Grammar.Item.kinds := by
    have hrow := hspells.append (Spells.symbol (c := ';') rfl (by decide) spells_nil)
      (stopsAt_cons rfl) [] nofun
    rwa [Token.kindsOf_nil, List.append_nil, List.append_nil] at hrow
  have hreadable := itemRow_readable x
  have htokens : kinds (TokenStream.ofText (Text.ofChars (cs ++ [';']))).tokens =
      x.kinds Grammar.Item.kinds := by
    rw [← hkinds]
    refine Token.kinds_ofText_ofChars fun hinvalid => ?_
    rw [hkinds] at hinvalid
    exact (hreadable _ hinvalid).1 rfl
  rw [hsource]
  obtain ⟨row, rest, hread, hrest⟩ := layerRow_complete stop x _ [] (by simpa using htokens)
    (htokens ▸ hreadable)
  -- The row that is read has a derivation, and there is only one.
  obtain ⟨y, hy, htree⟩ := layerRow_sound _ row rest hread
  rw [hrest, htokens] at hy
  have hsame : x.kinds Grammar.Item.kinds ++ [] = y.kinds Grammar.Item.kinds ++ [] := by
    simpa using hy
  obtain ⟨rfl, -⟩ := Grammar.itemRow_kinds_append_inj hsame
  refine ⟨row, rest, hread, List.map_eq_nil_iff.mp hrest, ?_⟩
  have hread : row.items.map (RowItem.forget id) = x.items.map Grammar.Item.tree :=
    congrArg LayerRow.items htree
  rw [← hforget]
  have hmap := congrArg (List.map (RowItem.forget Meaning.unquoted)) hread
  simpa [Function.comp_def] using hmap

/-- A timeout in front of a chord that holds a quote, and a backslash that remembers double
quotes. -/
theorem Parser.layerRow_joined_quotesAndTimeout :
    ∃ row rest,
      layerRow ⟨1, 1⟩ (TokenStream.ofText (Text.ofBytes (String.ofList
        ("a@b[200]".toList ++ ['\t', ' '] ++ (">\"'\"@~[num]<".toList ++ [' '] ++ "'\\'".toList) ++
          [';'])).toUTF8)).tokens = .ok (row, rest) ∧
      rest.1 = [] ∧
      row.items.map (RowItem.forget Meaning.unquoted) =
        [.key { tap := ⟨.named "a", {}⟩, hold := some ⟨⟨.named "b", {}⟩, .permissive, 200⟩ },
          .chord { key := { tap := ⟨.char '\'', {}⟩,
                            hold := some ⟨⟨.layer "num", {}⟩, .onOtherKeyPress, 0⟩ } },
          .key { tap := ⟨.char '\\', {}⟩ }] := by
  refine layerRow_joined
    (.more (.key { tap := ⟨.named "a", {}⟩, hold := some ⟨⟨.named "b", {}⟩, .permissive, 200⟩ })
        (by decide) (by simp [isBlank])
      (.more (.chord { key := { tap := ⟨.char '\'' (some '\''), {}⟩,
                                hold := some ⟨⟨.layer "num", {}⟩, .onOtherKeyPress, 0⟩ } })
          (by decide) (by simp [isBlank])
        (.last (.key { tap := ⟨.char '\\' (some '\"'), {}⟩ })))) ?_ ⟨1, 1⟩
  have hname : ∀ name ∈ ["a", "b", "num"], (Kind.identifier name).Spellable := by
    refine List.forall_mem_cons.mpr ⟨⟨'a', [], rfl, rfl, List.forall_mem_nil _⟩, ?_⟩
    refine List.forall_mem_cons.mpr ⟨⟨'b', [], rfl, rfl, List.forall_mem_nil _⟩, ?_⟩
    exact List.forall_mem_singleton.mpr ⟨'n', ['u', 'm'], rfl, rfl, List.all_eq_true.mp rfl⟩
  simp [RowItem.Spellable, Key.Spellable, Hold.Spellable, PlainKey.Meaning.Spellable, hname,
    Word.signedEnd]

end Keyplan
