import Keyplan.Proofs.Format.Reading
import Keyplan.Proofs.Golden.Sources
import Keyplan.Proofs.OptionTable
import Mathlib.Tactic.IntervalCases

/-!
# Strings — what a description can write

The names, values and keys of a description that was read have no line end in them. A keymap read
without defaults takes all its strings from its description, so the same holds of its options, its
custom keys and its layers.
-/

namespace Keyplan

open Golden (InLine)
open Lexeme (isLineEnd isNameStart isNamePart)
open Token (Kind)
open Format (EndsTight)
open Outcome

/-! ## 1. Characters of a line -/

theorem forall_mem_intercalate {α : Type} {P : α → Prop} {sep : List α} {ws : List (List α)}
    (hsep : ∀ c ∈ sep, P c) (h : ∀ w ∈ ws, ∀ c ∈ w, P c) : ∀ c ∈ List.intercalate sep ws, P c := by
  induction ws with
  | nil => exact fun _ hc => nomatch hc
  | cons w ws ih =>
    obtain ⟨hw, hws⟩ := List.forall_mem_cons.mp h
    cases ws with
    | nil => rwa [List.intercalate_singleton]
    | cons w' ws =>
      rw [List.intercalate_cons_cons]
      exact List.forall_mem_append.mpr ⟨List.forall_mem_append.mpr ⟨hw, hsep⟩, ih hws⟩

namespace Golden.InLine

theorem replicate {c : Char} (h : isLineEnd c = false) (n : Nat) : InLine (List.replicate n c) := by
  intro d hd
  rwa [List.eq_of_mem_replicate hd]

theorem flatMap {α : Type} {f : α → List Char} {xs : List α} (h : ∀ x ∈ xs, InLine (f x)) :
    InLine (xs.flatMap f) := by
  intro c hc
  obtain ⟨x, hx, hc⟩ := List.mem_flatMap.mp hc
  exact h x hx c hc

theorem intercalate {sep : List Char} {ws : List (List Char)} (hsep : InLine sep)
    (h : ∀ w ∈ ws, InLine w) : InLine (List.intercalate sep ws) :=
  forall_mem_intercalate hsep h

/-- A digit in bases up to sixteen, perhaps as a capital letter. -/
theorem digitChar (n : Nat) :
    isLineEnd n.digitChar = false ∧ isLineEnd n.digitChar.toUpper = false := by
  by_cases hn : n < 16
  · interval_cases n <;> decide
  · have hstar : n.digitChar = '*' := by
      unfold Nat.digitChar
      simp (disch := omega) only [if_neg]
    rw [hstar]
    decide

theorem toDigits {base : Nat} (hbase : 1 < base) (n : Nat) :
    ∀ c ∈ Nat.toDigits base n, isLineEnd c = false ∧ isLineEnd c.toUpper = false := by
  induction n using Nat.strong_induction_on with
  | h n ih =>
    rw [Nat.toDigits_eq_if hbase]
    split
    · exact List.forall_mem_singleton.mpr (digitChar n)
    · have hlt : n / base < n := Nat.div_lt_self (by omega) hbase
      exact List.forall_mem_append.mpr
        ⟨ih _ hlt, List.forall_mem_singleton.mpr (digitChar _)⟩

theorem decimal (n : Int) : InLine (decimal n) := by
  have hdigits : ∀ k, InLine (Nat.toDigits 10 k) := fun k c hc => (toDigits (by decide) k c hc).1
  cases n with
  | ofNat k => exact hdigits k
  | negSucc k => exact inLine_cons.mpr ⟨rfl, hdigits (k + 1)⟩

theorem escape {cs : List Char} (h : InLine cs) : InLine (Token.escape cs) := by
  induction cs with
  | nil => exact h
  | cons c rest ih =>
    obtain ⟨hc, hrest⟩ := inLine_cons.mp h
    unfold Token.escape
    split
    · simpa using ⟨rfl, hc, ih hrest⟩
    · exact inLine_cons.mpr ⟨hc, ih hrest⟩

theorem name {s : String} (h : (Kind.identifier s).Spellable) : InLine s.toList := by
  obtain ⟨c, cs, hs, hc, hcs⟩ := h
  rw [hs]
  refine List.forall_mem_cons.mpr ⟨LexClass.isLineEnd_of_class hc rfl rfl, ?_⟩
  exact fun d hd => LexClass.isLineEnd_of_class (hcs d hd) rfl rfl

end Golden.InLine

/-! ## 2. Keys as they are spelled -/

namespace Grammar

theorem inLine_quoted {c : Char} (hc : isLineEnd c = false) {wanted : Char}
    (hwanted : wanted = '\'' ∨ wanted = '\"') :
    InLine (Keyplan.PlainKey.Meaning.char c (some wanted)).spelling := by
  have hquote : isLineEnd (Keyplan.PlainKey.quoteFor c (some wanted)) = false := by
    rcases quoteFor_cases c hwanted with hq | ⟨hq, -⟩ <;> rw [hq] <;> rfl
  simpa [Keyplan.PlainKey.Meaning.spelling] using ⟨hquote, hc, hquote⟩

theorem PlainKey.inLine (x : PlainKey) (h : ∀ k ∈ x.kinds, k.Spellable) :
    InLine x.tree.spelling := by
  cases x with
  | named name => exact .name (h _ List.mem_cons_self)
  | layer name =>
    have hname : InLine name.toList := .name (h _ (by simp [kinds]))
    simpa [tree, Keyplan.PlainKey.spelling, Keyplan.PlainKey.Meaning.spelling]
      using ⟨rfl, hname, rfl⟩
  | character c => exact inLine_quoted (h _ List.mem_cons_self) (.inl rfl)
  | string c =>
    have hc : (Kind.string (String.singleton c)).Spellable := h _ List.mem_cons_self
    exact inLine_quoted (hc c (by simp)) (.inr rfl)

theorem Hold.inLine (x : Hold) (h : ∀ k ∈ x.kinds, k.Spellable) : InLine x.tree.spelling := by
  have hkey := x.key.inLine fun k hk => h k (by simp [kinds, hk])
  have hstyle : InLine x.style.spelling := by
    cases x.style <;> decide
  have htimeout : InLine (decimal (x.timeout.getD 0)) := .decimal _
  show InLine (x.style.spelling ++ x.key.tree.spelling ++
    if x.timeout.getD 0 = 0 then [] else '[' :: decimal (x.timeout.getD 0) ++ [']'])
  split
  · simpa using ⟨hstyle, hkey⟩
  · simpa using ⟨hstyle, hkey, rfl, htimeout, rfl⟩

theorem Key.inLine (x : Key) (h : ∀ k ∈ x.kinds, k.Spellable) : InLine x.tree.spelling := by
  obtain ⟨tap, hold⟩ := x
  have htap := tap.inLine fun k hk => h k (by simp [kinds, hk])
  cases hold with
  | none => simpa [Key.tree, Keyplan.Key.spelling] using htap
  | some x =>
    have hhold := x.inLine fun k hk => h k (by simp [kinds, hk])
    exact Golden.inLine_append.mpr ⟨htap, hhold⟩

theorem Item.inLine (x : Item) (h : ∀ k ∈ x.kinds, k.Spellable) : InLine x.tree.spelling := by
  cases x with
  | key k => exact k.inLine h
  | chord k =>
    have hkey := k.inLine fun k' hk => h k' (by simp [kinds, hk])
    simpa [tree, RowItem.spelling, Chord.spelling] using ⟨rfl, hkey, rfl⟩

end Grammar

/-! ## 3. Descriptions -/

def OptionsBlock.Writable (b : OptionsBlock) : Prop :=
  InLine b.backend.toList ∧ ∀ o ∈ b.options, InLine o.name.toList ∧ InLine o.value.toList

def KeyDeclaration.Writable (d : KeyDeclaration) : Prop :=
  InLine d.name.toList ∧ ∀ o ∈ d.outputs, InLine o.backend.toList ∧ InLine o.text.toList

def LayerBlock.Writable (b : LayerBlock) : Prop :=
  (Kind.identifier b.name).Spellable ∧
    ∀ r ∈ b.rows, ∀ i ∈ r.items, InLine i.spelling ∧ EndsTight i.spelling

/-- A description whose names, values and keys have no line end in them. -/
structure Description.Writable (d : Description) : Prop where
  options : ∀ b ∈ d.options, b.Writable
  keys : ∀ k ∈ d.keys, k.Writable
  layers : ∀ b ∈ d.layers, b.Writable

theorem Grammar.writable_optionsTree {backend : String} {lines : List Grammar.OptionLine}
    (h : ∀ k ∈ (Grammar.Block.options backend lines).kinds, k.Spellable) :
    (Grammar.optionsTree backend lines).Writable := by
  refine ⟨.name (h _ (List.mem_cons_of_mem _ List.mem_cons_self)), ?_⟩
  refine List.forall_mem_map.mpr fun o ho => ?_
  have hline : ∀ k ∈ o.kinds, k.Spellable := fun k hk =>
    h k (List.mem_cons_of_mem _ (List.mem_cons_of_mem _ (Format.mem_braced ho hk)))
  have hvalue : (Kind.string o.value).Spellable := hline _ (by simp [OptionLine.kinds])
  exact ⟨.name (hline _ List.mem_cons_self), hvalue⟩

theorem Grammar.writable_keyTree {name : String} {lines : List Grammar.OutLine}
    (h : ∀ k ∈ (Grammar.Block.key name lines).kinds, k.Spellable) :
    (Grammar.keyTree name lines).Writable := by
  refine ⟨.name (h _ (List.mem_cons_of_mem _ List.mem_cons_self)), ?_⟩
  refine List.forall_mem_map.mpr fun o ho => ?_
  have hline : ∀ k ∈ o.kinds, k.Spellable := fun k hk =>
    h k (List.mem_cons_of_mem _ (List.mem_cons_of_mem _ (Format.mem_braced ho hk)))
  have htext : (Kind.string o.text).Spellable := hline _ (by simp [OutLine.kinds])
  exact ⟨.name (hline _ (by simp [OutLine.kinds])), htext⟩

theorem Grammar.writable_layerTree {name : String} {rows : List (Row Item)}
    (h : ∀ k ∈ (Grammar.Block.layer name rows).kinds, k.Spellable) :
    (Grammar.layerTree name rows).Writable := by
  refine ⟨h _ (List.mem_cons_of_mem _ List.mem_cons_self), List.forall_mem_map.mpr fun r hr => ?_⟩
  refine List.forall_mem_map.mpr fun x hx => ?_
  have hitem : ∀ k ∈ x.kinds, k.Spellable := by
    intro k hk
    refine h k (List.mem_cons_of_mem _ (List.mem_cons_of_mem _ (Format.mem_braced hr ?_)))
    exact List.mem_append_left _ (List.mem_flatMap.mpr ⟨x, hx, hk⟩)
  exact ⟨x.inLine hitem, x.endsTight hitem⟩

theorem Description.writable_of_unlocated {d : Description} (h : d.unlocated.Writable) :
    d.Writable where
  options b hb := by
    obtain ⟨hbackend, hlines⟩ := h.options _ (List.mem_map_of_mem hb)
    exact ⟨hbackend, List.forall_mem_map.mp hlines⟩
  keys k hk := by
    obtain ⟨hname, hlines⟩ := h.keys _ (List.mem_map_of_mem hk)
    exact ⟨hname, List.forall_mem_map.mp hlines⟩
  layers b hb := by
    obtain ⟨hname, hrows⟩ := h.layers _ (List.mem_map_of_mem hb)
    refine ⟨hname, fun r hr i hi => ?_⟩
    have hitem := hrows _ (List.mem_map_of_mem hr) _ (List.mem_map_of_mem hi)
    rwa [RowItem.spelling_forget (f := id) fun _ => rfl] at hitem

theorem Description.writable_of_parse {source : Text} {d : Description}
    (h : Description.parse source = .ok d) : d.Writable := by
  obtain ⟨f, rows, hkinds, -, htree⟩ := Parser.description_sound h
  have hspell : ∀ b ∈ f, ∀ k ∈ b.kinds, k.Spellable := fun b hb =>
    Format.spellable_of_mem_file hkinds hb
  apply writable_of_unlocated
  rw [htree, Grammar.File.tree_eq]
  constructor
  · refine List.forall_mem_map.mpr fun x hx => Grammar.writable_optionsTree (hspell _ ?_)
    exact Format.mem_of_mem_filterMap (fun x => .options x.1 x.2)
      (by rintro (_ | _ | _ | _) x ⟨⟩; rfl) hx
  · refine List.forall_mem_map.mpr fun x hx => Grammar.writable_keyTree (hspell _ ?_)
    exact Format.mem_of_mem_filterMap (fun x => .key x.1 x.2)
      (by rintro (_ | _ | _ | _) x ⟨⟩; rfl) hx
  · refine List.forall_mem_map.mpr fun x hx => Grammar.writable_layerTree (hspell _ ?_)
    exact Format.mem_of_mem_filterMap (fun x => .layer x.1 x.2)
      (by rintro (_ | _ | _ | _) x ⟨⟩; rfl) hx

/-! ## 4. Keymaps -/

/-- A keymap whose strings have no line end in them. -/
structure Keymap.Writable (m : Keymap) : Prop where
  description : m.description.Writable
  options : ∀ b name v, m.options.get? b name = some v → InLine v.value.toList
  outputs : ∀ b name o, m.customKeys.get? b name = some o → InLine o.text.toList
  layerNames : ∀ name ∈ m.layerNames, (Kind.identifier name).Spellable

theorem OptionTable.inLine_of_resolve {blocks : List OptionsBlock} {t : OptionTable Backend}
    (h : resolve blocks [] = .ok t) (hblocks : ∀ b ∈ blocks, b.Writable) {b : Backend}
    {name : String} {v : OptionValue} (hv : t.get? b name = some v) : InLine v.value.toList := by
  rw [(resolve_inForce h).get?_eq] at hv
  cases hlast : (linesFor blocks b name).getLast? with
  | none =>
    rw [hlast] at hv
    cases hv
  | some l =>
    rw [hlast] at hv
    obtain rfl := Option.some.inj hv
    obtain ⟨block, hblock, hl⟩ := mem_linesFor (List.mem_of_getLast? hlast)
    exact ((hblocks block hblock).2 l hl).2

theorem CustomKeys.inLine_of_addAll {decls seen : List KeyDeclaration} {c c' : CustomKeys}
    (h : addAll seen c decls = .ok c') (hdecls : ∀ d ∈ decls, d.Writable)
    (hc : ∀ e ∈ c.outputs, InLine e.2.text.toList) : ∀ e ∈ c'.outputs, InLine e.2.text.toList := by
  induction decls generalizing seen c with
  | nil =>
    obtain rfl := Except.ok.inj h
    exact hc
  | cons d decls ih =>
    obtain ⟨hd, hdecls⟩ := List.forall_mem_cons.mp hdecls
    rw [addAll] at h
    split at h
    · cases h
    · obtain ⟨c₁, hc₁, h⟩ := bind_eq_ok_iff.mp h
      refine ih h hdecls ?_
      -- Every output of the declaration is set, one after the other.
      refine foldlM_of_ok (P := fun _ c => ∀ e ∈ c.outputs, InLine e.2.text.toList) ?_
        d.outputs [] (List.nil_append _) hc hc₁
      intro done out rest c c' hsplit hc hout
      obtain ⟨b, -, hout⟩ := bind_eq_ok_iff.mp hout
      obtain rfl := pure_eq_ok_iff.mp hout
      have hmem : out ∈ d.outputs := hsplit ▸ List.mem_append_right _ List.mem_cons_self
      exact OrderedMap.forall_insert hc (hd.2 out hmem).2

theorem Keymap.writable_of_read {source : Text} {m : Keymap}
    (h : Keymap.read source [] = .ok m) : m.Writable := by
  have hm := wellFormed_of_read h
  obtain ⟨d, hd, h⟩ := bind_eq_ok_iff.mp h
  have hwritable := Description.writable_of_parse hd
  unfold resolve at h
  obtain ⟨options, hoptions, h⟩ := bind_eq_ok_iff.mp h
  obtain ⟨customKeys, hkeys, h⟩ := bind_eq_ok_iff.mp h
  obtain ⟨layout, hlayout, h⟩ := bind_eq_ok_iff.mp h
  obtain ⟨layers, hlayers, h⟩ := bind_eq_ok_iff.mp h
  obtain rfl := pure_eq_ok_iff.mp h
  constructor
  · exact hwritable
  · exact fun b name v hv => OptionTable.inLine_of_resolve hoptions hwritable.options hv
  · intro b name o ho
    have houtputs := CustomKeys.inLine_of_addAll hkeys hwritable.keys fun e he => nomatch he
    exact houtputs _ (OrderedMap.mem_of_get? ho)
  · rw [hm.layerNames_eq]
    exact List.forall_mem_map.mpr fun b hb => (hwritable.layers b hb).1

end Keyplan
