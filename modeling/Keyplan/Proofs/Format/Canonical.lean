import Keyplan.Proofs.Format.Words
import Keyplan.Proofs.Grammar
import Mathlib.Data.List.Basic

/-!
# Canonical derivations — what the canonical form of a description is read as

The canonical form writes a character with a quote that reads back, and leaves a timeout of zero
out. `canonical` does the same to a derivation. What a derivation stands for is spelled with the
tokens of its canonical derivation, which stands for the same up to quotes.
-/

namespace Keyplan.Grammar

open Token (Kind StopsAt kindsOf_identifier kindsOf_character kindsOf_string kindsOf_integer
  kindsOf_keyCount kindsOf_spaceCount kindsOf_symbol kindsOf_atTilde)
open Format Lexeme
open Keyplan.PlainKey (quoteFor Meaning)

/-! ## Canonical derivations -/

def quotedKey (c quote : Char) : PlainKey :=
  if quote = '\"' then .string c else .character c

def PlainKey.canonical : PlainKey → PlainKey
  | character c => quotedKey c (quoteFor c (some '\''))
  | string c => quotedKey c (quoteFor c (some '\"'))
  | named name => named name
  | layer name => layer name

def Hold.canonical (h : Hold) : Hold where
  style := h.style
  key := h.key.canonical
  timeout := if h.timeout.getD 0 = 0 then none else h.timeout

def Key.canonical (k : Key) : Key where
  tap := k.tap.canonical
  hold := k.hold.map Hold.canonical

def Item.canonical : Item → Item
  | key k => key k.canonical
  | chord k => chord k.canonical

def Row.canonical (r : Row Item) : Row Item where
  first := r.first.canonical
  others := r.others.map Item.canonical

theorem Row.items_canonical (r : Row Item) : r.canonical.items = r.items.map Item.canonical := rfl

/-! ## Forgetting the quotes that were changed -/

/-- Double quotes are used only around a character that is read as itself between them. -/
theorem quoteFor_cases (c : Char) {wanted : Char} (hwanted : wanted = '\'' ∨ wanted = '\"') :
    quoteFor c (some wanted) = '\'' ∨
      (quoteFor c (some wanted) = '\"' ∧ c ≠ '\\' ∧ c ≠ '\"') := by
  unfold quoteFor
  simp only [Option.getD_some]
  -- Between double quotes a backslash would escape what follows it.
  by_cases hback : c = '\\'
  · exact .inl (if_pos hback)
  rw [if_neg hback]
  rcases hwanted with rfl | rfl
  · by_cases hsingle : c = '\''
    · subst hsingle
      exact .inr ⟨rfl, by decide, by decide⟩
    · simp [hsingle]
  · by_cases hdouble : c = '\"'
    · subst hdouble
      exact .inl rfl
    · simp [hdouble, hback]

theorem quoteFor_quoteFor (c : Char) (wanted : Option Char) :
    quoteFor c (some (quoteFor c wanted)) = quoteFor c wanted := by
  unfold quoteFor
  generalize wanted.getD '\'' = q
  simp only [Option.getD_some]
  -- Each case chooses a quote that the same case, or the last one, keeps.
  by_cases hback : c = '\\'
  · simp [hback]
  by_cases hsingle : c = '\'' ∧ q = '\''
  · obtain ⟨rfl, rfl⟩ := hsingle
    decide
  by_cases hdouble : c = '\"' ∧ q = '\"'
  · obtain ⟨rfl, rfl⟩ := hdouble
    decide
  · simp [hback, hsingle, hdouble]

/-- A function on meanings that does not tell the quote a character was written with from the one
that the canonical form writes. -/
def IgnoresRequoting (g : Meaning → Meaning) : Prop :=
  ∀ c quote, g (.char c (some (quoteFor c quote))) = g (.char c quote)

theorem ignoresRequoting_unquoted : IgnoresRequoting Meaning.unquoted :=
  fun _ _ => rfl

variable {g : Meaning → Meaning}

theorem quotedKey_forget (hg : IgnoresRequoting g) (c : Char) {wanted : Char}
    (hwanted : wanted = '\'' ∨ wanted = '\"') :
    (quotedKey c (quoteFor c (some wanted))).tree.forget g =
      Keyplan.PlainKey.forget g { meaning := .char c (some wanted) } := by
  have htree : (quotedKey c (quoteFor c (some wanted))).tree =
      { meaning := .char c (some (quoteFor c (some wanted))) } := by
    rcases quoteFor_cases c hwanted with hq | ⟨hq, -, -⟩ <;> rw [hq] <;> rfl
  rw [htree]
  show Keyplan.PlainKey.mk (g _) {} = Keyplan.PlainKey.mk (g _) {}
  rw [hg]

theorem PlainKey.canonical_forget (hg : IgnoresRequoting g) (x : PlainKey) :
    x.canonical.tree.forget g = x.tree.forget g := by
  cases x with
  | named name => rfl
  | layer name => rfl
  | character c => exact quotedKey_forget hg c (.inl rfl)
  | string c => exact quotedKey_forget hg c (.inr rfl)

theorem Hold.canonical_forget (hg : IgnoresRequoting g) (h : Hold) :
    h.canonical.tree.forget g = h.tree.forget g := by
  -- A timeout of zero counts as none, written or not.
  have htimeout : h.canonical.timeout.getD 0 = h.timeout.getD 0 := by
    show (if h.timeout.getD 0 = 0 then none else h.timeout).getD 0 = _
    split
    · exact Eq.symm ‹_›
    · rfl
  simp only [Keyplan.Hold.forget, Hold.tree, htimeout]
  rw [show h.canonical.key = h.key.canonical from rfl, h.key.canonical_forget hg]
  rfl

theorem Key.canonical_forget (hg : IgnoresRequoting g) (k : Key) :
    k.canonical.tree.forget g = k.tree.forget g := by
  obtain ⟨tap, hold⟩ := k
  simp only [Keyplan.Key.forget, Key.tree, Key.canonical, tap.canonical_forget hg]
  cases hold with
  | none => rfl
  | some h => simp only [Option.map_some, h.canonical_forget hg]

theorem Item.canonical_forget (hg : IgnoresRequoting g) (i : Item) :
    i.canonical.tree.forget g = i.tree.forget g := by
  cases i with
  | key k => exact congrArg RowItem.key (k.canonical_forget hg)
  | chord k =>
    refine congrArg RowItem.chord ?_
    simp only [Chord.forget, k.canonical_forget hg]

/-! ## Canonical files -/

def Block.options? : Block → Option (String × List OptionLine)
  | options backend lines => some (backend, lines)
  | _ => none

def Block.key? : Block → Option (String × List OutLine)
  | key name lines => some (name, lines)
  | _ => none

def Block.layer? : Block → Option (String × List (Row Item))
  | layer name rows => some (name, rows)
  | _ => none

/-- The blocks of a file in the order of the canonical form: those of one kind stay in order. -/
def File.canonical (f : File) (rows : List (Row Cell)) : File :=
  [.layout rows]
    ++ (f.filterMap Block.options?).map (fun x => .options x.1 x.2)
    ++ (f.filterMap Block.key?).map (fun x => .key x.1 x.2)
    ++ (f.filterMap Block.layer?).map (fun x => .layer x.1 (x.2.map Row.canonical))

theorem File.tree_eq (f : File) (rows : List (Row Cell)) :
    f.tree rows =
      { layout := layoutTree rows
        options := (f.filterMap Block.options?).map fun x => optionsTree x.1 x.2
        keys := (f.filterMap Block.key?).map fun x => keyTree x.1 x.2
        layers := (f.filterMap Block.layer?).map fun x => layerTree x.1 x.2 } := by
  simp only [File.tree, List.map_filterMap, Description.mk.injEq, true_and, and_true]
  refine ⟨?_, ?_, ?_⟩ <;>
  · refine List.filterMap_congr fun b _ => ?_
    cases b <;> rfl

/-- Each kind of blocks is picked from the canonical form on its own. -/
theorem File.filterMap_canonical {γ : Type} (f : File) (rows : List (Row Cell))
    (pick : Block → Option γ) :
    (f.canonical rows).filterMap pick =
      (pick (.layout rows)).toList
        ++ (f.filterMap Block.options?).filterMap (fun x => pick (.options x.1 x.2))
        ++ (f.filterMap Block.key?).filterMap (fun x => pick (.key x.1 x.2))
        ++ (f.filterMap Block.layer?).filterMap
          (fun x => pick (.layer x.1 (x.2.map Row.canonical))) := by
  unfold File.canonical
  rw [List.filterMap_append, List.filterMap_append, List.filterMap_append, List.filterMap_map,
    List.filterMap_map, List.filterMap_map, List.filterMap_cons]
  cases pick (.layout rows) <;> rfl

theorem File.layouts_canonical (f : File) (rows : List (Row Cell)) :
    (f.canonical rows).layouts = [rows] := by
  simp [File.layouts, filterMap_canonical, Block.layout?]

/-- A file and its canonical form describe the same, up to the quotes that were changed. -/
theorem File.canonical_forget (hg : IgnoresRequoting g) (f : File) (rows : List (Row Cell)) :
    ((f.canonical rows).tree rows).forget g = (f.tree rows).forget g := by
  have hoptions : (f.canonical rows).filterMap Block.options? = f.filterMap Block.options? := by
    simp [filterMap_canonical, Block.options?]
  have hkeys : (f.canonical rows).filterMap Block.key? = f.filterMap Block.key? := by
    simp [filterMap_canonical, Block.key?]
  have hlayers : (f.canonical rows).filterMap Block.layer? =
      (f.filterMap Block.layer?).map fun x => (x.1, x.2.map Row.canonical) := by
    simp [filterMap_canonical, Block.layer?]
  rw [File.tree_eq, File.tree_eq, hoptions, hkeys, hlayers]
  simp only [Description.forget, List.map_map]
  congr 1
  refine List.map_congr_left fun x _ => ?_
  simp only [Function.comp_def, layerTree, LayerBlock.forget, List.map_map, LayerRow.forget,
    Row.items_canonical, Item.canonical_forget hg]

theorem File.canonical_bare (f : File) (rows : List (Row Cell)) :
    ((f.canonical rows).tree rows).bare = (f.tree rows).bare :=
  File.canonical_forget ignoresRequoting_unquoted f rows

/-! ## Spelling keys -/

theorem quotedKey_spells {c : Char} (hc : isLineEnd c = false) {wanted : Char}
    (hwanted : wanted = '\'' ∨ wanted = '\"') :
    Spells [quoteFor c (some wanted), c, quoteFor c (some wanted)]
      (quotedKey c (quoteFor c (some wanted))).kinds := by
  intro rest _
  rcases quoteFor_cases c hwanted with hq | ⟨hq, hback, hdouble⟩
  · rw [hq]
    exact kindsOf_character hc rest
  · rw [hq]
    -- The character is neither of the two that need a backslash.
    have hescape : Token.escape [c] = [c] := by simp [Token.escape, hback, hdouble]
    have hstring : (Kind.string (String.singleton c)).Spellable := by
      intro d hd
      simp only [String.toList_singleton, List.mem_singleton] at hd
      rw [hd]
      exact hc
    have hread := kindsOf_string hstring rest
    rw [String.toList_singleton, hescape] at hread
    exact hread

theorem PlainKey.spells (x : PlainKey) (h : ∀ k ∈ x.kinds, k.Spellable) :
    Spells x.tree.spelling x.canonical.kinds := by
  cases x with
  | named name =>
    intro rest hrest
    exact kindsOf_identifier (h _ List.mem_cons_self) hrest
  | layer name =>
    have hname : (Kind.identifier name).Spellable := h _ (by simp [kinds])
    refine Spells.symbol rfl (by decide) ?_
    have hspell : Spells name.toList [.identifier name] := fun rest hrest =>
      kindsOf_identifier hname hrest
    exact hspell.append (Spells.symbol rfl (by decide) spells_nil) (stopsAt_cons rfl)
  | character c => exact quotedKey_spells (h _ List.mem_cons_self) (.inl rfl)
  -- Both kinds of quotes are read back as a character, so the quotes may change.
  | string c =>
    have hc : (Kind.string (String.singleton c)).Spellable := h _ List.mem_cons_self
    exact quotedKey_spells (hc c (by simp)) (.inr rfl)

theorem PlainKey.spelling_eq_cons (x : PlainKey) (h : ∀ k ∈ x.kinds, k.Spellable) :
    ∃ c cs, x.tree.spelling = c :: cs ∧ c ≠ '~' := by
  have hquote : ∀ c wanted, wanted = '\'' ∨ wanted = '\"' → quoteFor c (some wanted) ≠ '~' := by
    intro c wanted hwanted
    rcases quoteFor_cases c hwanted with hq | ⟨hq, -⟩ <;> rw [hq] <;> decide
  cases x with
  | named name =>
    obtain ⟨c, cs, hname, hc, -⟩ := h _ List.mem_cons_self
    exact ⟨c, cs, hname, Token.ne_of_class hc '~' rfl⟩
  | layer name => exact ⟨'[', name.toList ++ [']'], rfl, by decide⟩
  | character c => exact ⟨_, _, rfl, hquote c _ (.inl rfl)⟩
  | string c => exact ⟨_, _, rfl, hquote c _ (.inr rfl)⟩

theorem PlainKey.endsTight (x : PlainKey) (h : ∀ k ∈ x.kinds, k.Spellable) :
    EndsTight x.tree.spelling := by
  -- A quoted character ends with its quote, even if it is a blank.
  have hquote : ∀ c wanted, wanted = '\'' ∨ wanted = '\"' →
      EndsTight [quoteFor c (some wanted), c, quoteFor c (some wanted)] := by
    intro c wanted hwanted
    refine ⟨[quoteFor c (some wanted), c], _, rfl, ?_⟩
    rcases quoteFor_cases c hwanted with hq | ⟨hq, -⟩ <;> rw [hq] <;> decide
  cases x with
  | named name =>
    obtain ⟨c, cs, hname, hc, hcs⟩ := h _ List.mem_cons_self
    show EndsTight name.toList
    rw [hname]
    -- All characters of a name are name characters, the last one too.
    refine ⟨(c :: cs).dropLast, (c :: cs).getLast (List.cons_ne_nil _ _),
      (List.dropLast_concat_getLast _).symm, ?_⟩
    have hpart : ∀ d ∈ c :: cs, isNamePart d := by
      intro d hd
      rcases List.mem_cons.mp hd with rfl | hd
      · simp [isNamePart, hc]
      · exact hcs d hd
    exact Token.ne_of_class (hpart _ (List.getLast_mem _)) ' ' rfl
  | layer name => exact ⟨'[' :: name.toList, ']', rfl, by decide⟩
  | character c => exact hquote c _ (.inl rfl)
  | string c => exact hquote c _ (.inr rfl)

theorem spells_bracketed {n : Nat} (h : n < Word.signedEnd) :
    Spells ('[' :: Nat.toDigits 10 n ++ [']'])
      [.symbol .openBracket, .integer n, .symbol .closeBracket] := by
  have hnumber : Spells (Nat.toDigits 10 n) [.integer n] := fun rest hrest =>
    kindsOf_integer h hrest
  exact Spells.symbol rfl (by decide)
    (hnumber.append (Spells.symbol rfl (by decide) spells_nil) (stopsAt_cons rfl))

theorem spells_style (style : HoldStyle) (x : PlainKey) (h : ∀ k ∈ x.kinds, k.Spellable) :
    Spells (style.spelling ++ x.tree.spelling) (styleKind style :: x.canonical.kinds) := by
  obtain ⟨c, cs, hspelling, hc⟩ := x.spelling_eq_cons h
  intro rest hrest
  have hkey := x.spells h rest hrest
  rw [hspelling] at hkey ⊢
  cases style with
  | permissive =>
    -- A tilde behind the sign would be read as the other style.
    have htilde : (c :: cs ++ rest).head? ≠ some '~' := fun e => hc (Option.some.inj e)
    show Token.kindsOf ('@' :: (c :: cs ++ rest)) = _
    rw [kindsOf_symbol rfl fun _ => htilde, hkey]
    rfl
  | onOtherKeyPress =>
    show Token.kindsOf ('@' :: '~' :: (c :: cs ++ rest)) = _
    rw [kindsOf_atTilde, hkey]
    rfl

theorem Hold.spells (x : Hold) (h : ∀ k ∈ x.kinds, k.Spellable) :
    Spells x.tree.spelling x.canonical.kinds := by
  obtain ⟨style, key, timeout⟩ := x
  have hstyle := spells_style style key fun k hk => h k (by simp [kinds, hk])
  show Spells (style.spelling ++ key.tree.spelling ++
    if timeout.getD 0 = 0 then [] else '[' :: Nat.toDigits 10 (timeout.getD 0) ++ [']'])
      (styleKind style :: key.canonical.kinds ++
        timeoutKinds (if timeout.getD 0 = 0 then none else timeout))
  by_cases hzero : timeout.getD 0 = 0
  · rw [if_pos hzero, if_pos hzero, List.append_nil]
    simpa [timeoutKinds] using hstyle
  · rw [if_neg hzero, if_neg hzero]
    cases timeout with
    -- Only a timeout that was written is not zero.
    | none => exact absurd rfl hzero
    | some n =>
      have hn : (Kind.integer n).Spellable := h _ (by simp [kinds, timeoutKinds])
      exact hstyle.append (spells_bracketed hn) (stopsAt_cons rfl)

theorem Hold.endsTight (x : Hold) (h : ∀ k ∈ x.kinds, k.Spellable) :
    EndsTight x.tree.spelling := by
  have hkey := x.key.endsTight fun k hk => h k (by simp [kinds, hk])
  show EndsTight (x.style.spelling ++ x.key.tree.spelling ++
    if x.timeout.getD 0 = 0 then [] else '[' :: Nat.toDigits 10 (x.timeout.getD 0) ++ [']'])
  split
  · rw [List.append_nil]
    exact hkey.append _
  · exact EndsTight.append _ ⟨_, ']', rfl, by decide⟩

theorem Key.spells (x : Key) (h : ∀ k ∈ x.kinds, k.Spellable) :
    Spells x.tree.spelling x.canonical.kinds := by
  obtain ⟨tap, hold⟩ := x
  have htap := tap.spells fun k hk => h k (by simp [kinds, hk])
  cases hold with
  | none =>
    show Spells (tap.tree.spelling ++ []) (tap.canonical.kinds ++ [])
    rwa [List.append_nil, List.append_nil]
  | some x =>
    refine htap.append (x.spells fun k hk => h k (by simp [kinds, hk])) ?_
    obtain ⟨style, key, timeout⟩ := x
    cases style <;> exact stopsAt_cons rfl

theorem Key.endsTight (x : Key) (h : ∀ k ∈ x.kinds, k.Spellable) : EndsTight x.tree.spelling := by
  obtain ⟨tap, hold⟩ := x
  cases hold with
  | none =>
    show EndsTight (tap.tree.spelling ++ [])
    rw [List.append_nil]
    exact tap.endsTight fun k hk => h k (by simp [kinds, hk])
  | some x => exact (x.endsTight fun k hk => h k (by simp [kinds, hk])).append _

theorem Item.spells (x : Item) (h : ∀ k ∈ x.kinds, k.Spellable) :
    Spells x.tree.spelling x.canonical.kinds := by
  cases x with
  | key k => exact k.spells h
  | chord k =>
    have hkey := k.spells fun k' hk => h k' (by simp [kinds, hk])
    exact Spells.symbol rfl (by decide)
      (hkey.append (Spells.symbol rfl (by decide) spells_nil) (stopsAt_cons rfl))

theorem Item.endsTight (x : Item) (h : ∀ k ∈ x.kinds, k.Spellable) :
    EndsTight x.tree.spelling := by
  cases x with
  | key k => exact k.endsTight h
  | chord k => exact ⟨'>' :: k.tree.spelling, '<', rfl, by decide⟩

/-! ## Spelling cells of a layout -/

theorem Cell.spells (x : Cell) (h : ∀ k ∈ x.kinds, k.Spellable) :
    Spells x.tree.shape.spelling x.kinds := by
  cases x with
  | keys n =>
    intro rest _
    show Token.kindsOf (Nat.toDigits 10 n ++ ['k'] ++ rest) = _
    rw [List.append_assoc]
    exact kindsOf_keyCount (h _ List.mem_cons_self) rest
  | spaces n =>
    intro rest _
    show Token.kindsOf (Nat.toDigits 10 n ++ ['s'] ++ rest) = _
    rw [List.append_assoc]
    exact kindsOf_spaceCount (h _ List.mem_cons_self) rest
  | remap n =>
    have hn : (Kind.integer n).Spellable := h _ (by simp [kinds])
    exact spells_bracketed hn

theorem Cell.endsTight (x : Cell) : EndsTight x.tree.shape.spelling := by
  cases x with
  | keys n => exact ⟨_, 'k', rfl, by decide⟩
  | spaces n => exact ⟨_, 's', rfl, by decide⟩
  | remap n => exact ⟨'[' :: decimal n, ']', rfl, by decide⟩

end Keyplan.Grammar
