import Keyplan.Proofs.Firmware.References
import Keyplan.Proofs.Golden.Strings

/-!
# Artifacts — the lines of firmware and of canonical forms

The lines of a firmware table start with a bracket or a word, and what a description adds to them
stays on its line. The canonical form is a source itself, so a dash in it stands between quotes.
-/

namespace Keyplan

open Golden
open Text (ofChars ofString allLines carriageReturn)
open Token (Kind)
open Outcome

/-! ## 1. Pieces of text -/

namespace Text

theorem ofString_append (s s' : String) : ofString (s ++ s') = ofString s ++ ofString s' := by
  rw [ofString, String.toList_append, ofChars_append]
  rfl

theorem ofString_join (ss : List String) :
    ofString (String.join ss) = (ss.map ofString).flatten := by
  induction ss with
  | nil => rfl
  | cons s ss ih => rw [String.join_cons, ofString_append, ih, List.map_cons, List.flatten_cons]

end Text

namespace Golden.InLine

theorem append {s s' : String} (h : InLine s.toList) (h' : InLine s'.toList) :
    InLine (s ++ s').toList := by
  rw [String.toList_append]
  exact inLine_append.mpr ⟨h, h'⟩

theorem continues {s : String} (h : InLine s.toList) : Continues (ofString s) :=
  h.oneLine.continues

theorem natural (n : Nat) : InLine (toString n).toList := by
  show InLine (Nat.repr n).toList
  rw [Nat.toList_repr]
  exact fun c hc => (toDigits (by decide) n c hc).1

theorem integer (n : Int) : InLine (toString n).toList := by
  cases n with
  | ofNat k => exact natural k
  | negSucc k =>
    have hminus : InLine ("-" : String).toList := by decide
    exact hminus.append (natural (k + 1))

end Golden.InLine

/-! ## 2. Codes of keys -/

theorem NamedKey.inLine_code : ∀ k ∈ NamedKey.all, InLine k.code.toList := by
  decide +kernel

theorem CharKey.inLine_code : ∀ k ∈ CharKey.all, InLine (k.char :: k.code.toList) := by
  decide +kernel

theorem Keymap.mem_of_resolveChar {c : Char} {span : Span} {key : CharKey}
    (h : resolveChar c span = .ok key) : key ∈ CharKey.all ∧ key.char = c := by
  unfold resolveChar at h
  split at h
  · rename_i found hfound
    obtain rfl := Except.ok.inj h
    exact ⟨List.mem_of_find?_eq_some hfound, by simpa using List.find?_some hfound⟩
  · cases h

theorem Keymap.Writable.inLine_getD {m : Keymap} (hm : m.Writable) {b : Backend}
    {name default : String} (h : InLine default.toList) :
    InLine (m.options.getD b name default).toList := by
  unfold OptionTable.getD
  cases hv : m.options.get? b name with
  | none => exact h
  | some v => exact hm.options b name v hv

theorem Keymap.Writable.inLine_of_custom {m : Keymap} (hm : m.Writable) {b : Backend}
    {name : String} {span : Span} {output : CustomOutput}
    (h : m.resolveName b name span = .ok (.custom output)) : InLine output.text.toList := by
  unfold resolveName at h
  split at h
  · rename_i found hfound
    obtain rfl := KeyMeaning.custom.inj (Except.ok.inj h)
    exact hm.outputs b name found hfound
  · split at h <;> cases h

theorem Keymap.mem_of_named {m : Keymap} {b : Backend} {name : String} {span : Span}
    {key : NamedKey} (h : m.resolveName b name span = .ok (.named key)) : key ∈ NamedKey.all := by
  unfold resolveName at h
  split at h
  · cases h
  · split at h
    · rename_i found hfound
      obtain rfl := KeyMeaning.named.inj (Except.ok.inj h)
      exact List.mem_of_find?_eq_some hfound
    · cases h

/-! ## 3. Actions -/

namespace Firmware

def Action.Writable : Action → Prop
  | keyCode code => InLine code.toList
  | keyCodes codes => ∀ code ∈ codes, InLine code.toList
  | layer _ => True
  | holdTap _ hold tap _ _ => hold.Writable ∧ tap.Writable
  | noOp => True
  | custom text => InLine text.toList

/-- A hold-tap action has lines of its own, and each starts with a word. -/
theorem continues_renderHoldTap (timeout interval : Int) {hold tap : String}
    (config : HoldTapConfig) (hhold : Continues (ofString hold)) (htap : Continues (ofString tap)) :
    Continues (ofString (Action.renderHoldTap timeout hold tap config.name interval)) := by
  have hpieces : Action.renderHoldTap timeout hold tap config.name interval = String.join
      [Action.actionPath ++ "HoldTap(\n" ++ "    &::keyberon::action::HoldTapAction \x7b\n"
          ++ "        timeout: ", toString timeout,
        ",\n" ++ "        hold: ", hold, ",\n" ++ "        tap: ", tap,
        ",\n" ++ "        config: ::keyberon::action::HoldTapConfig::", config.name,
        ",\n" ++ "        tap_hold_interval: ", toString interval, ",\n" ++ "    \x7d)"] := by
    simp only [Action.renderHoldTap, String.join_cons, String.join_nil, String.append_assoc,
      String.append_empty]
    rfl
  have hconfig : InLine config.name.toList := by
    cases config <;> decide
  rw [hpieces, Text.ofString_join]
  apply continues_flatten
  -- What stands between the parts opens the next line; the parts go on with it.
  simp only [List.map_cons, List.map_nil, List.forall_mem_cons]
  exact ⟨Open.continues (by decide +kernel), (InLine.integer timeout).continues,
    Open.continues (by decide +kernel), hhold, Open.continues (by decide +kernel), htap,
    Open.continues (by decide +kernel), hconfig.continues, Open.continues (by decide +kernel),
    (InLine.integer interval).continues, Open.continues (by decide +kernel), nofun⟩

theorem Action.Writable.continues {a : Action} (h : a.Writable) :
    Continues (ofString a.render) := by
  induction a with
  | keyCode code =>
    have hfront : InLine (actionPath ++ "KeyCode(" ++ keyCodePath).toList := by decide +kernel
    have hback : InLine (")" : String).toList := by decide
    exact ((hfront.append h).append hback).continues
  | keyCodes codes =>
    have hcodes : InLine (", ".intercalate (codes.map fun code => keyCodePath ++ code)).toList := by
      rw [String.toList_intercalate, List.map_map]
      refine .intercalate (by decide) (List.forall_mem_map.mpr fun code hcode => ?_)
      have hpath : InLine keyCodePath.toList := by decide
      exact hpath.append (h code hcode)
    have hfront : InLine (actionPath ++ "MultipleKeyCodes(&[").toList := by decide +kernel
    have hback : InLine ("].as_slice())" : String).toList := by decide
    exact ((hfront.append hcodes).append hback).continues
  | layer index =>
    have hpath : InLine actionPath.toList := by decide
    have hfront : InLine ("Layer(" : String).toList := by decide
    have hback : InLine (")" : String).toList := by decide
    exact (hpath.append ((hfront.append (.integer index)).append hback)).continues
  | holdTap timeout hold tap config interval ihhold ihtap =>
    exact continues_renderHoldTap timeout interval config (ihhold h.1) (ihtap h.2)
  | noOp => exact InLine.continues (by decide +kernel)
  | custom text => exact InLine.continues h

namespace Binder

variable {b : Binder}

theorem writable_bindPlain (hb : b.keymap.Writable) {k : PlainKey} {a : Action}
    (h : b.bindPlain k = .ok a) : a.Writable := by
  unfold bindPlain at h
  split at h
  · obtain ⟨i, -, h⟩ := bind_eq_ok_iff.mp h
    obtain rfl := pure_eq_ok_iff.mp h
    trivial
  · obtain ⟨key, hkey, h⟩ := bind_eq_ok_iff.mp h
    obtain rfl := pure_eq_ok_iff.mp h
    have hcode := (inLine_cons.mp (CharKey.inLine_code key (Keymap.mem_of_resolveChar hkey).1)).2
    unfold charAction
    split
    · exact List.forall_mem_cons.mpr ⟨by decide, List.forall_mem_singleton.mpr hcode⟩
    · exact hcode
  · obtain ⟨meaning, hmeaning, h⟩ := bind_eq_ok_iff.mp h
    obtain rfl := pure_eq_ok_iff.mp h
    cases meaning with
    | custom output => exact hb.inLine_of_custom hmeaning
    | named key =>
      show Action.Writable (if key.isNoOp then .noOp else .keyCode key.code)
      split
      · trivial
      · exact NamedKey.inLine_code key (Keymap.mem_of_named hmeaning)

theorem writable_bind (hb : b.keymap.Writable) {k : Key} {a : Action} (h : b.bind k = .ok a) :
    a.Writable := by
  obtain ⟨tap, htap, h⟩ := bind_eq_ok_iff.mp h
  split at h
  · obtain rfl := pure_eq_ok_iff.mp h
    exact writable_bindPlain hb htap
  · obtain ⟨hold, hhold, h⟩ := bind_eq_ok_iff.mp h
    obtain rfl := pure_eq_ok_iff.mp h
    exact ⟨writable_bindPlain hb hhold, writable_bindPlain hb htap⟩

end Binder

/-! ## 4. Tables -/

namespace Table

theorem tame_chordLine (entry : ChordPair × MatrixPos) : Tame (ofString (chordLine entry)) := by
  have hcomma : InLine (", " : String).toList := by decide
  have hpos : ∀ p : MatrixPos, InLine p.text.toList := by
    intro p
    have hopen : InLine ("(" : String).toList := by decide
    have hclose : InLine (")" : String).toList := by decide
    exact (((hopen.append (.integer p.row)).append hcomma).append (.integer p.col)).append hclose
  have harrow : InLine ("] => [" : String).toList := by decide
  have hopen : Open (ofString "        [") := by decide
  have hend : Tame (ofString "],\n") := by decide
  have hleft := (hopen.append_line (hpos entry.1.left).oneLine).append_line hcomma.oneLine
  have hright := (hleft.append_line (hpos entry.1.right).oneLine).append_line harrow.oneLine
  unfold chordLine
  rw [Text.ofString_append, Text.ofString_append, Text.ofString_append, Text.ofString_append,
    Text.ofString_append, Text.ofString_append]
  exact (hright.append_line (hpos entry.2).oneLine).tame.append hend

theorem tame_rowLine {row : List Action} (h : ∀ a ∈ row, a.Writable) :
    Tame (ofString (rowLine row)) := by
  have hcells : Continues (ofString (String.join (row.map fun a => a.render ++ ", "))) := by
    rw [Text.ofString_join]
    refine continues_flatten (List.forall_mem_map.mpr (List.forall_mem_map.mpr fun a ha => ?_))
    rw [Text.ofString_append]
    exact (h a ha).continues.append (InLine.continues (by decide))
  have hopen : Open (ofString "    [") := by decide
  have hend : Tame (ofString "],\n") := by decide
  unfold rowLine
  rw [Text.ofString_append, Text.ofString_append]
  exact (hcells _ hopen).tame.append hend

theorem tame_join {α : Type} {line : α → String} {xs : List α}
    (h : ∀ x ∈ xs, Tame (ofString (line x))) : Tame (ofString (String.join (xs.map line))) := by
  rw [Text.ofString_join]
  exact tame_flatten (List.forall_mem_map.mpr (List.forall_mem_map.mpr h))

theorem tame_layerLines {rows : List (List Action)} (h : ∀ row ∈ rows, ∀ a ∈ row, a.Writable) :
    Tame (ofString (layerLines rows)) := by
  have hopen : Tame (ofString "  [\n") := by decide
  have hend : Tame (ofString "  ],\n") := by decide
  unfold layerLines
  rw [Text.ofString_append, Text.ofString_append]
  exact (hopen.append (tame_join fun row hrow => tame_rowLine (h row hrow))).append hend

theorem tame_render {t : Table} (hevent : InLine t.customEvent.toList)
    (h : ∀ rows ∈ t.layers, ∀ row ∈ rows, ∀ a ∈ row, a.Writable) : Tame (ofString t.render) := by
  have hcomma : InLine (", " : String).toList := by decide
  have hsizes : InLine (toString t.width ++ ", " ++ toString t.rows ++ ", "
      ++ toString t.layers.length ++ ", ").toList :=
    (((((InLine.natural t.width).append hcomma).append (.natural t.rows)).append hcomma).append
      (.natural t.layers.length)).append hcomma
  have hopen : Open (ofString "pub static LAYERS: ::keyberon::layout::Layers<") := by
    decide +kernel
  have hhead : Open (ofString ("pub static LAYERS: ::keyberon::layout::Layers<" ++ toString t.width
      ++ ", " ++ toString t.rows ++ ", " ++ toString t.layers.length ++ ", ")) := by
    have hline := hsizes.continues _ hopen
    simp only [Text.ofString_append, List.append_assoc] at hline ⊢
    exact hline
  have hchords : Tame (ofString (String.join (t.chords.map chordLine))) :=
    tame_join fun entry _ => tame_chordLine entry
  have hlayers : Tame (ofString (String.join (t.layers.map layerLines))) :=
    tame_join fun rows hrows => tame_layerLines (h rows hrows)
  have hstart : Tame (ofString
      "pub fn chorder() -> super::chord::Chorder \x7b\n    dilemma_macros::chords!(\n") := by
    decide +kernel
  have hclose : Tame (ofString "    )\n\x7d\n") := by decide
  have hfirst : Tame (ofString "> = [\n") := by decide
  have hend : Tame (ofString "];\n") := by decide
  have hline := ((hstart.append hchords).append hclose).append_open hhead
  have htame := (((hline.append_line hevent.oneLine).tame.append hfirst).append hlayers).append hend
  unfold render
  simp only [Text.ofString_append] at htame ⊢
  exact htame

theorem tame_of_build {m : Keymap} {t : Table} (hm : m.Writable) (h : build m = .ok t) :
    Tame (ofString t.render) := by
  obtain ⟨b, hb, -, -, hbound⟩ := build_bound h
  obtain ⟨rfl, -⟩ := Binder.ofKeymap_eq_ok hb
  apply tame_render
  · obtain ⟨b', bounds, a, -, -, rfl⟩ := build_eq_ok h
    exact hm.inLine_getD (by decide)
  · intro g hg row hrow action haction
    obtain ⟨i, hi⟩ := List.getElem?_of_mem hg
    obtain ⟨l, -, hcells⟩ := hbound i g hi
    rcases hcells row hrow action haction with rfl | ⟨k, -, hbind⟩
    · trivial
    · exact Binder.writable_bind hm hbind

end Table

end Firmware

/-! ## 5. Canonical forms -/

theorem Golden.InLine.return_not_mem {cs : List Char} (h : InLine cs) : '\r' ∉ cs :=
  fun hmem => nomatch h _ hmem

namespace Format

theorem Spaced.inLine {ws : List (List Char)} {cs : List Char} (h : Spaced ws cs)
    (hws : ∀ w ∈ ws, InLine w) : InLine cs := by
  induction h with
  | nil => exact inLine_nil
  | blank rest ih => exact inLine_cons.mpr ⟨rfl, ih hws⟩
  | word tight rest loose ih =>
    obtain ⟨hw, hws⟩ := List.forall_mem_cons.mp hws
    exact inLine_append.mpr ⟨hw, ih hws⟩

theorem return_not_mem_block {heading : List Char} {lines : List (List Char)} (n : Nat)
    (hheading : InLine heading) (hlines : ∀ line ∈ lines, InLine line) :
    '\r' ∉ block (List.replicate n ' ') heading lines := by
  have hindent : InLine (List.replicate n ' ') := .replicate rfl n
  have hopen : '\r' ∉ " \x7b\n".toList := by decide
  have hend : '\r' ∉ ";\n".toList := by decide
  have hclose : '\r' ∉ "\x7d\n".toList := by decide
  simp only [block, List.mem_append, List.mem_flatMap, not_or, not_exists, not_and]
  refine ⟨⟨⟨hheading.return_not_mem, hopen⟩, fun line hline => ?_⟩, hclose⟩
  exact ⟨⟨hindent.return_not_mem, (hlines line hline).return_not_mem⟩, hend⟩

theorem inLine_value {cs : List Char} (h : InLine cs) {value : String}
    (hvalue : InLine value.toList) : InLine (cs ++ ": ".toList ++ quote value) := by
  have hcolon : InLine (": " : String).toList := by decide
  have hquote : InLine (quote value) := by
    simpa [quote] using ⟨rfl, hvalue.escape, rfl⟩
  exact inLine_append.mpr ⟨inLine_append.mpr ⟨h, hcolon⟩, hquote⟩

theorem inLine_layoutLine (row : LayoutRow) : InLine (layoutLine row) := by
  refine .intercalate (by decide) (List.forall_mem_map.mpr fun item _ => ?_)
  cases item.shape with
  | keys count => exact inLine_append.mpr ⟨.decimal count, by decide⟩
  | spaces count => exact inLine_append.mpr ⟨.decimal count, by decide⟩
  | remap column =>
    have hnumber : InLine (decimal column) := .decimal column
    simpa [LayoutItem.Shape.spelling] using ⟨rfl, hnumber, rfl⟩

theorem inLine_layer {m : Keymap} (hm : m.WellFormed) (hw : m.description.Writable) {l : Layer}
    (hl : l ∈ m.layers) :
    InLine l.name.toList ∧ ∀ line ∈ layerLines m.layout (columnWidths m) l, InLine line := by
  obtain ⟨b, hb, hresolve⟩ := exists_of_mem_mapM hm.layers hl
  obtain ⟨hname, hitems⟩ := hw.layers b hb
  obtain ⟨hlname, hcount, hplaced⟩ := Layer.resolve_eq_ok_iff.mp hresolve
  refine ⟨hlname ▸ .name hname, List.forall_mem_map.mpr fun row hrow => ?_⟩
  rw [List.mem_range, hcount] at hrow
  have hnode := List.getElem?_eq_getElem hrow
  have hmem := List.getElem_mem hrow
  have hspaced := spaced_layerLines hm.layout hl hplaced hnode fun i hi => (hitems _ hmem i hi).2
  exact hspaced.inLine (List.forall_mem_map.mpr fun i hi => (hitems _ hmem i hi).1)

theorem return_not_mem_format {m : Keymap} (hm : m.WellFormed) (hw : m.description.Writable)
    {out : List Char} (h : format m = .ok out) : '\r' ∉ out := by
  obtain ⟨indent, -, h⟩ := bind_eq_ok_iff.mp h
  obtain rfl := pure_eq_ok_iff.mp h
  have hblocks : ∀ b ∈ blocks m (List.replicate indent.toNat ' '), '\r' ∉ b := by
    have hword : ∀ {word : String} {name : String}, InLine word.toList → InLine name.toList →
        InLine (word.toList ++ name.toList) := fun hword hname => inLine_append.mpr ⟨hword, hname⟩
    unfold blocks
    refine List.forall_mem_append.mpr ⟨List.forall_mem_append.mpr
      ⟨List.forall_mem_append.mpr ⟨List.forall_mem_singleton.mpr ?_, ?_⟩, ?_⟩, ?_⟩
    · refine return_not_mem_block _ (by decide) ?_
      exact List.forall_mem_map.mpr fun row _ => inLine_layoutLine row
    · refine List.forall_mem_map.mpr fun o ho => ?_
      obtain ⟨hbackend, hlines⟩ := hw.options o ho
      refine return_not_mem_block _ (hword (by decide) hbackend) ?_
      exact List.forall_mem_map.mpr fun l hl => inLine_value (hlines l hl).1 (hlines l hl).2
    · refine List.forall_mem_map.mpr fun k hk => ?_
      obtain ⟨hname, hlines⟩ := hw.keys k hk
      refine return_not_mem_block _ (hword (by decide) hname) ?_
      refine List.forall_mem_map.mpr fun l hl => inLine_value ?_ (hlines l hl).2
      exact hword (by decide) (hlines l hl).1
    · refine List.forall_mem_map.mpr fun l hl => ?_
      obtain ⟨hname, hlines⟩ := inLine_layer hm hw hl
      exact return_not_mem_block _ (hword (by decide) hname) hlines
  intro hreturn
  have hfeed : ∀ c ∈ ['\n'], c ≠ '\r' := List.forall_mem_singleton.mpr (by decide)
  refine forall_mem_intercalate (P := (· ≠ '\r')) hfeed (fun b hb c hc => ?_) _ hreturn rfl
  rintro rfl
  exact hblocks b hb hc

/-- The canonical form can be read, so no line of it is a delimiter. -/
theorem delimiterKind?_of_format {source : Text} {m : Keymap} {out : List Char}
    (hread : Keymap.read source [] = .ok m) (h : format m = .ok out) :
    ∀ l ∈ allLines (ofChars out), delimiterKind? l = none := by
  obtain ⟨-, -, d, -, hparse, -⟩ := parse_format hread h
  exact fun l hl => ((lexes_of_parse hparse).dashQuoted l hl).delimiterKind?_eq

end Format

end Keyplan
