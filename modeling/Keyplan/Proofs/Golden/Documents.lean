import Keyplan.Proofs.Golden.Artifacts

/-!
# Documents — the lines of a diagram

A scalar without line ends is written on one line, whatever its style. Every line of a document
starts with a key, with the sign between a key and its value, or with a dash and a blank; what
follows on the line cannot make it a delimiter.
-/

namespace Keyplan

open Golden
open Text (ofChars ofString carriageReturn allLines)
open Lexeme (isLineEnd)
open Token (Kind)
open Outcome

/-! ## 1. Scalars -/

namespace Yaml

theorem not_lineEnd_of_lookup {table : List (Nat × Char)} {n : Nat} {c : Char}
    (h : table.lookup n = some c) (hall : ∀ p ∈ table, isLineEnd p.2 = false) :
    isLineEnd c = false := by
  obtain ⟨front, back, hsplit, -⟩ := List.lookup_eq_some_iff.mp h
  apply hall (n, c)
  rw [hsplit]
  exact List.mem_append_right _ List.mem_cons_self

theorem inLine_escape (c : Char) : InLine (escape c) := by
  have hhex : ∀ width, InLine ((Quoted.hex width c.toNat).toList.map Char.toUpper) := by
    intro width d hd
    obtain ⟨e, he, rfl⟩ := List.mem_map.mp hd
    unfold Quoted.hex at he
    rw [String.toList_ofList] at he
    rcases List.mem_append.mp he with he | he
    · rw [List.eq_of_mem_replicate he]
      decide
    · exact (InLine.toDigits (by decide) _ e he).2
  unfold escape
  refine inLine_cons.mpr ⟨rfl, ?_⟩
  cases hletter : escapeLetter? c with
  | some letter =>
    refine inLine_cons.mpr ⟨?_, inLine_nil⟩
    exact not_lineEnd_of_lookup hletter (by decide)
  | none =>
    dsimp only
    split
    · exact inLine_cons.mpr ⟨rfl, hhex 2⟩
    · split
      · exact inLine_cons.mpr ⟨rfl, hhex 4⟩
      · exact inLine_cons.mpr ⟨rfl, hhex 8⟩

theorem inLine_writeDouble {cs : List Char} (h : InLine cs) : InLine (writeDouble cs) := by
  unfold writeDouble
  have hbody : InLine (cs.flatMap fun c => if cs.head? == some '\uFEFF' || !isWritable c
      || isBreak c || c == '\"' || c == '\\' then escape c else [c]) := by
    refine .flatMap fun c hc => ?_
    split
    · exact inLine_escape c
    · exact inLine_cons.mpr ⟨h c hc, inLine_nil⟩
  exact inLine_append.mpr ⟨inLine_cons.mpr ⟨rfl, hbody⟩, by decide⟩

theorem inLine_spaces (n : Nat) : InLine (spaces n) :=
  .replicate rfl n

theorem inLine_singleBody (indent : Nat) (behindBreak : Bool) {cs : List Char} (h : InLine cs) :
    InLine (singleBody indent behindBreak cs) := by
  induction cs generalizing behindBreak with
  | nil => exact h
  | cons c rest ih =>
    obtain ⟨hc, hrest⟩ := inLine_cons.mp h
    unfold singleBody
    split
    · exact inLine_cons.mpr ⟨hc, ih true hrest⟩
    · refine inLine_append.mpr ⟨inLine_append.mpr ⟨?_, ?_⟩, ih false hrest⟩
      · split
        · exact inLine_spaces indent
        · exact inLine_nil
      · split
        · decide
        · exact inLine_cons.mpr ⟨hc, inLine_nil⟩

theorem styleOf_ne_literal (inFlow free : Bool) {cs : List Char} (h : InLine cs) :
    styleOf inFlow free cs ≠ .literal := by
  have hfeed : '\n' ∉ cs := fun hmem => nomatch h _ hmem
  unfold styleOf
  rw [if_neg hfeed]
  split_ifs <;> decide

/-- A text without line ends is written without line ends. -/
theorem inLine_writeScalar {style : Style} (hstyle : style ≠ .literal) (indent : Nat)
    {cs : List Char} (h : InLine cs) : InLine (writeScalar style indent cs) := by
  cases style with
  | plain => exact h
  | single =>
    have hbody := inLine_singleBody indent false h
    exact inLine_append.mpr ⟨inLine_cons.mpr ⟨rfl, hbody⟩, by decide⟩
  | double => exact inLine_writeDouble h
  | literal => exact absurd rfl hstyle

theorem inLine_writeText (inFlow : Bool) (indent : Nat) {s : String} (h : InLine s.toList) :
    InLine (writeText inFlow indent s) :=
  inLine_writeScalar (styleOf_ne_literal _ _ h) indent h

/-! ## 2. Keys -/

theorem open_of_cons {c : Char} {cs : List Char} (hc : isSettled [.char c])
    (h : InLine (c :: cs)) : Open (ofChars (c :: cs)) := by
  obtain ⟨hend, hcs⟩ := inLine_cons.mp h
  have hone : Open (ofChars [c]) := by
    have hline : OneLine (ofChars [c]) := (inLine_cons.mpr ⟨hend, inLine_nil⟩ : InLine [c]).oneLine
    have hlines : allLines (ofChars [c]) = [ofChars [c]] := Text.allLines_of_line hline.1
    refine ⟨⟨hline.2, ?_⟩, ?_⟩
    · rw [hlines]
      exact List.forall_mem_singleton.mpr (.inr hc)
    · have hlast := Text.lastLine_append hline.1 []
      rw [List.nil_append] at hlast
      rw [hlast]
      exact hc
  exact hone.append_line hcs.oneLine

theorem tame_spaces (n : Nat) : Tame (ofChars (spaces n)) := by
  induction n with
  | zero => decide
  | succ n ih =>
    have hblank : Tame (ofChars [' ']) := by decide
    exact hblank.append ih

theorem tame_break (n : Nat) : Tame (ofChars ('\n' :: spaces n)) := by
  have hfeed : Tame (ofChars ['\n']) := by decide
  exact hfeed.append (tame_spaces n)

/-- A key that can be written on one line, and a line that starts with it. -/
def IsKey (key : String) : Prop :=
  InLine key.toList ∧ Open (ofString key)

instance (key : String) : Decidable (IsKey key) :=
  inferInstanceAs (Decidable (_ ∧ _))

theorem isKey_of_name {name : String} (h : (Kind.identifier name).Spellable) : IsKey name := by
  refine ⟨.name h, ?_⟩
  have hline : InLine name.toList := .name h
  obtain ⟨c, cs, hname, hc, -⟩ := h
  unfold ofString
  rw [hname] at hline ⊢
  apply open_of_cons _ hline
  have hblank : isDelimiterBlank (.char c) = false := by
    simp [isDelimiterBlank, Token.ne_of_class hc ' ' rfl, Token.ne_of_class hc '\t' rfl,
      Token.ne_of_class hc '\n' rfl, Token.ne_of_class hc '\x0c' rfl,
      Token.ne_of_class hc '\r' rfl]
  simp [isSettled, hblank, dash, Token.ne_of_class hc '-' rfl]

theorem open_writeScalar {style : Style} (hstyle : style ≠ .literal) (indent : Nat) {key : String}
    (h : IsKey key) : Open (ofChars (writeScalar style indent key.toList)) := by
  have hline := inLine_writeScalar hstyle indent h.1
  cases style with
  | plain => exact h.2
  | single => exact open_of_cons (by decide) hline
  | double => exact open_of_cons (by decide) hline
  | literal => exact absurd rfl hstyle

theorem open_writeKey (indent : Nat) {key : String} (h : IsKey key) :
    Open (ofChars (writeKey indent key)) := by
  have hstyle := styleOf_ne_literal false (readsAsString key.toList) h.1
  have hwritten := inLine_writeScalar hstyle indent h.1
  unfold writeKey
  dsimp only
  split
  · rw [Text.ofChars_append]
    exact (open_writeScalar hstyle indent h).append_line (by decide : InLine [':']).oneLine
  · have hmark : Open (ofChars ['?', ' ']) := by decide
    have hcolon : Open (ofChars [':']) := by decide
    have hline := (hmark.append_line hwritten.oneLine).tame
    rw [Text.ofChars_append, Text.ofChars_append]
    exact (hline.append (tame_break indent)).append_open hcolon

/-! ## 3. Documents -/

/-- A document whose texts have no line end in them. -/
inductive Clean : Yaml → Prop
  | text {s : String} (h : InLine s.toList) : Clean (.text s)
  | number (n : Int) : Clean (.number n)
  | mergeSign : Clean .mergeSign
  | sequence {items : List Yaml} (h : ∀ y ∈ items, Clean y) : Clean (.sequence items)
  | flow {items : List Yaml} (h : ∀ y ∈ items, Clean y) : Clean (.flow items)
  | mapping {entries : List (String × Yaml)} (hkeys : ∀ e ∈ entries, IsKey e.1)
      (h : ∀ e ∈ entries, Clean e.2) : Clean (.mapping entries)

/-- A writer that goes through a list writes every item of it in the same way. -/
theorem eq_map_of_cons {α β : Type} {writer : List α → List β} {one : α → β}
    (hnil : writer [] = []) (hcons : ∀ x xs, writer (x :: xs) = one x :: writer xs) (xs : List α) :
    writer xs = xs.map one := by
  induction xs with
  | nil => exact hnil
  | cons x xs ih => rw [hcons, ih, List.map_cons]

theorem writeFlowItems_eq (items : List Yaml) : writeFlowItems items = items.map writeFlow :=
  eq_map_of_cons rfl (fun _ _ => rfl) items

theorem writeFlowEntries_eq (entries : List (String × Yaml)) :
    writeFlowEntries entries = entries.map fun e => e.1.toList ++ ':' :: ' ' :: writeFlow e.2 :=
  eq_map_of_cons rfl (fun _ _ => rfl) entries

theorem writeItems_eq (indent : Nat) (items : List Yaml) :
    writeItems indent items = items.map fun y => '-' :: ' ' :: write (indent + 2) y :=
  eq_map_of_cons rfl (fun _ _ => rfl) items

theorem writeEntries_eq (indent : Nat) (entries : List (String × Yaml)) :
    writeEntries indent entries = entries.map fun e => writeKey indent e.1
      ++ (if isNested e.2 && e.1.utf8ByteSize ≤ maxSimpleKey then '\n' :: spaces (indent + 2)
        else [' '])
      ++ write (indent + 2) e.2 :=
  eq_map_of_cons rfl (fun _ _ => rfl) entries

theorem Clean.inLine_writeFlow {y : Yaml} (h : Clean y) : InLine (writeFlow y) := by
  have hitems : ∀ {items : List Yaml}, (∀ y ∈ items, InLine (writeFlow y)) →
      InLine (List.intercalate [',', ' '] (writeFlowItems items)) := by
    intro items h
    rw [writeFlowItems_eq]
    refine .intercalate (by decide) fun w hw => ?_
    obtain ⟨y, hy, rfl⟩ := List.mem_map.mp hw
    exact h y hy
  induction h with
  | text h => exact inLine_writeText true 0 h
  | number n => exact .decimal n
  | mergeSign => decide
  | sequence h ih =>
    exact inLine_append.mpr ⟨inLine_cons.mpr ⟨rfl, hitems ih⟩, by decide⟩
  | flow h ih =>
    exact inLine_append.mpr ⟨inLine_cons.mpr ⟨rfl, hitems ih⟩, by decide⟩
  | @mapping entries hkeys h ih =>
    have hentries : InLine (List.intercalate [',', ' '] (writeFlowEntries entries)) := by
      rw [writeFlowEntries_eq]
      refine .intercalate (by decide) fun w hw => ?_
      obtain ⟨e, he, rfl⟩ := List.mem_map.mp hw
      refine inLine_append.mpr ⟨(hkeys e he).1, ?_⟩
      exact inLine_cons.mpr ⟨rfl, inLine_cons.mpr ⟨rfl, ih e he⟩⟩
    exact inLine_append.mpr ⟨inLine_cons.mpr ⟨rfl, hentries⟩, by decide⟩

theorem tame_endLine {cs : List Char} (h : Tame (ofChars cs)) : Tame (ofChars (endLine cs)) := by
  unfold endLine
  split
  · exact h
  · have hfeed : Tame (ofChars ['\n']) := by decide
    rw [Text.ofChars_append]
    exact h.append hfeed

theorem tame_stack (indent : Nat) {parts : List (List Char)} (h : ∀ p ∈ parts, Tame (ofChars p)) :
    Tame (ofChars (stack indent parts)) := by
  unfold stack
  induction parts with
  | nil => exact (by decide : Tame [])
  | cons p parts ih =>
    obtain ⟨hp, hparts⟩ := List.forall_mem_cons.mp h
    have hrest := ih hparts
    cases parts with
    | nil =>
      rw [List.map_singleton, List.intercalate_singleton]
      exact tame_endLine hp
    | cons q parts =>
      rw [List.map_cons, List.map_cons, List.intercalate_cons_cons, ← List.map_cons,
        Text.ofChars_append, Text.ofChars_append]
      exact ((tame_endLine hp).append (tame_spaces indent)).append hrest

/-- A part that takes lines of its own is tame; any other one stays on its line. -/
def Settles (indent : Nat) (y : Yaml) : Prop :=
  if isNested y then Tame (ofChars (write indent y)) else InLine (write indent y)

theorem Settles.behind {indent : Nat} {y : Yaml} (h : Settles indent y) {t : Text} (ht : Open t) :
    Tame (t ++ ofChars (write indent y)) := by
  unfold Settles at h
  split at h
  · exact ht.tame.append h
  · exact (ht.append_line h.oneLine).tame

theorem Settles.item {indent : Nat} {y : Yaml} (h : Settles (indent + 2) y) :
    Tame (ofChars ('-' :: ' ' :: write (indent + 2) y)) := by
  have hdash : Open (ofChars ['-', ' ']) := by decide
  exact h.behind hdash

theorem Settles.entry {indent : Nat} {e : String × Yaml} (hkey : IsKey e.1)
    (h : Settles (indent + 2) e.2) :
    Tame (ofChars (writeKey indent e.1
      ++ (if isNested e.2 && e.1.utf8ByteSize ≤ maxSimpleKey then '\n' :: spaces (indent + 2)
        else [' '])
      ++ write (indent + 2) e.2)) := by
  have hopen := open_writeKey indent hkey
  rw [Text.ofChars_append, Text.ofChars_append]
  split
  · rename_i hbelow
    have hnested : isNested e.2 = true := (Bool.and_eq_true_iff.mp hbelow).1
    rw [Settles, if_pos hnested] at h
    exact (hopen.tame.append (tame_break _)).append h
  · exact h.behind (hopen.append_line (by decide : InLine [' ']).oneLine)

theorem Clean.settles {y : Yaml} (h : Clean y) (indent : Nat) : Settles indent y := by
  induction h generalizing indent with
  | text h => exact inLine_writeText false indent h
  | number n => exact InLine.decimal n
  | mergeSign => exact Clean.mergeSign.inLine_writeFlow
  | flow h => exact (Clean.flow h).inLine_writeFlow
  | @sequence items h ih =>
    cases items with
    | nil => exact (by decide : InLine ['[', ']'])
    | cons item rest =>
      show Tame (ofChars (stack indent (writeItems indent (item :: rest))))
      rw [writeItems_eq]
      refine tame_stack indent fun part hpart => ?_
      obtain ⟨y, hy, rfl⟩ := List.mem_map.mp hpart
      exact (ih y hy (indent + 2)).item
  | @mapping entries hkeys h ih =>
    cases entries with
    | nil => exact (by decide : InLine ['\x7b', '\x7d'])
    | cons e rest =>
      show Tame (ofChars (stack indent (writeEntries indent (e :: rest))))
      rw [writeEntries_eq]
      refine tame_stack indent fun part hpart => ?_
      obtain ⟨e', he', rfl⟩ := List.mem_map.mp hpart
      exact Settles.entry (hkeys e' he') (ih e' he' (indent + 2))

theorem Clean.tame_render {y : Yaml} (h : Clean y) (hnested : isNested y) :
    Tame (ofChars y.render) := by
  have hsettles := h.settles 0
  rw [Settles, if_pos hnested] at hsettles
  exact tame_endLine hsettles

end Yaml

/-! ## 4. Labels -/

namespace Diagram

def KeyLabel.Writable (l : KeyLabel) : Prop :=
  InLine l.tap.toList ∧ InLine l.hold.toList

variable {m : Keymap}

theorem inLine_plainLabel (hm : m.Writable) {k : PlainKey} {s : String}
    (h : plainLabel m k = .ok s) : InLine s.toList := by
  unfold plainLabel at h
  split at h
  · obtain ⟨i, hi, h⟩ := bind_eq_ok_iff.mp h
    obtain rfl := pure_eq_ok_iff.mp h
    exact .name (hm.layerNames _ (List.mem_of_getElem? (Keymap.resolveLayer_eq_ok hi)))
  · obtain ⟨key, hkey, h⟩ := bind_eq_ok_iff.mp h
    obtain rfl := pure_eq_ok_iff.mp h
    obtain ⟨hmem, rfl⟩ := Keymap.mem_of_resolveChar hkey
    have hchar := (inLine_cons.mp (CharKey.inLine_code key hmem)).1
    simpa using hchar
  · obtain ⟨meaning, hmeaning, h⟩ := bind_eq_ok_iff.mp h
    cases meaning with
    | custom output =>
      obtain rfl := pure_eq_ok_iff.mp h
      exact hm.inLine_of_custom hmeaning
    | named key =>
      obtain rfl := pure_eq_ok_iff.mp h
      exact NamedKey.inLine_code key (Keymap.mem_of_named hmeaning)

theorem writable_keyLabel (hm : m.Writable) {k : Key} {l : KeyLabel} (h : keyLabel m k = .ok l) :
    l.Writable := by
  obtain ⟨tap, htap, h⟩ := bind_eq_ok_iff.mp h
  split at h
  · obtain rfl := pure_eq_ok_iff.mp h
    exact ⟨inLine_plainLabel hm htap, inLine_nil⟩
  · obtain ⟨hold, hhold, h⟩ := bind_eq_ok_iff.mp h
    obtain rfl := pure_eq_ok_iff.mp h
    exact ⟨inLine_plainLabel hm htap, inLine_plainLabel hm hhold⟩

def LayerLabels.Writable (l : LayerLabels) : Prop :=
  Yaml.IsKey l.name ∧ ∀ row ∈ l.rows, ∀ label ∈ row, label.Writable

theorem writable_labelLayer (hm : m.Writable) {l : Layer} (hl : l ∈ m.layers) {labels : LayerLabels}
    (h : labelLayer m l = .ok labels) : labels.Writable := by
  obtain ⟨found, hfound, h⟩ := bind_eq_ok_iff.mp h
  obtain rfl := pure_eq_ok_iff.mp h
  have hlabel : ∀ e ∈ found, e.2.Writable := by
    intro e he
    obtain ⟨k, -, hk⟩ := exists_of_mem_mapM hfound he
    obtain ⟨label, hlabel, hk⟩ := bind_eq_ok_iff.mp hk
    obtain rfl := pure_eq_ok_iff.mp hk
    exact writable_keyLabel hm hlabel
  refine ⟨Yaml.isKey_of_name (hm.layerNames _ (List.mem_map_of_mem hl)), ?_⟩
  refine List.forall_mem_map.mpr fun x _ => List.forall_mem_map.mpr fun col _ => ?_
  -- A key without a label is blank.
  cases hcell : OrderedMap.get? (found.filter fun e => e.1.row == x.2) ⟨col, x.2⟩ with
  | none => exact ⟨inLine_nil, inLine_nil⟩
  | some label => exact hlabel _ (List.mem_filter.mp (OrderedMap.mem_of_get? hcell)).1

/-! ## 5. Combinations -/

def Combo.Writable (c : Combo) : Prop :=
  c.label.Writable ∧ ∀ name ∈ c.layers, InLine name.toList

theorem writable_addCombo {name : String} (hname : InLine name.toList) {c : Combo}
    (hc : c.Writable) {combos : List Combo} (h : ∀ d ∈ combos, d.Writable) :
    ∀ d ∈ addCombo name c combos, d.Writable := by
  induction combos with
  | nil => exact List.forall_mem_singleton.mpr hc
  | cons d rest ih =>
    obtain ⟨hd, hrest⟩ := List.forall_mem_cons.mp h
    unfold addCombo
    split
    · refine List.forall_mem_cons.mpr ⟨?_, hrest⟩
      unfold Combo.addLayer
      split
      · exact hd
      · exact ⟨hd.1, List.forall_mem_append.mpr ⟨hd.2, List.forall_mem_singleton.mpr hname⟩⟩
    · exact List.forall_mem_cons.mpr ⟨hd, ih hrest⟩

theorem writable_addChords (hm : m.Writable) {l : Layer} (hl : l ∈ m.layers)
    {combos combos' : List Combo} (h : addChords m l combos = .ok combos')
    (hcombos : ∀ c ∈ combos, c.Writable) : ∀ c ∈ combos', c.Writable := by
  have hname : InLine l.name.toList := .name (hm.layerNames _ (List.mem_map_of_mem hl))
  refine foldlM_of_ok (P := fun _ combos => ∀ c ∈ combos, c.Writable) ?_ l.chords []
    (List.nil_append _) hcombos h
  intro done chord rest combos combos' _ hcombos h
  obtain ⟨combo, hcombo, h⟩ := bind_eq_ok_iff.mp h
  obtain rfl := pure_eq_ok_iff.mp h
  obtain ⟨label, hlabel, hcombo⟩ := bind_eq_ok_iff.mp hcombo
  obtain rfl := pure_eq_ok_iff.mp hcombo
  refine writable_addCombo hname ?_ hcombos
  exact ⟨writable_keyLabel hm hlabel, List.forall_mem_singleton.mpr hname⟩

theorem writable_drawLayers (hm : m.Writable) {layers : List Layer} (hlayers : layers ⊆ m.layers)
    {combos combos' : List Combo} {labels : List LayerLabels}
    (h : drawLayers m combos layers = .ok (labels, combos'))
    (hcombos : ∀ c ∈ combos, c.Writable) :
    (∀ l ∈ labels, l.Writable) ∧ ∀ c ∈ combos', c.Writable := by
  induction layers generalizing combos labels with
  | nil =>
    obtain ⟨rfl, rfl⟩ := Prod.mk.inj (Except.ok.inj h)
    exact ⟨List.forall_mem_nil _, hcombos⟩
  | cons l layers ih =>
    obtain ⟨hl, hrest⟩ := List.cons_subset.mp hlayers
    rw [drawLayers] at h
    obtain ⟨first, hfirst, h⟩ := bind_eq_ok_iff.mp h
    obtain ⟨combos₁, hcombos₁, h⟩ := bind_eq_ok_iff.mp h
    obtain ⟨⟨others, combos₂⟩, hothers, h⟩ := bind_eq_ok_iff.mp h
    obtain ⟨rfl, rfl⟩ := Prod.mk.inj (pure_eq_ok_iff.mp h)
    obtain ⟨hlabels, hcombos₂⟩ := ih hrest hothers (writable_addChords hm hl hcombos₁ hcombos)
    exact ⟨List.forall_mem_cons.mpr ⟨writable_labelLayer hm hl hfirst, hlabels⟩, hcombos₂⟩

/-! ## 6. Diagrams -/

open Yaml (Clean IsKey)

theorem clean_mapping {entries : List (String × Yaml)}
    (h : ∀ e ∈ entries, IsKey e.1 ∧ Clean e.2) : Clean (.mapping entries) :=
  .mapping (fun e he => (h e he).1) fun e he => (h e he).2

theorem clean_optionalField {text : String → Yaml} {name s : String} (hname : IsKey name)
    (htext : Clean (text s)) : ∀ e ∈ optionalField name text s, IsKey e.1 ∧ Clean e.2 := by
  unfold optionalField
  split
  · exact List.forall_mem_nil _
  · exact List.forall_mem_singleton.mpr ⟨hname, htext⟩

theorem clean_label {text : String → Yaml} (htext : ∀ s : String, InLine s.toList → Clean (text s))
    {l : KeyLabel} (h : l.Writable) : Clean (labelYaml text l) := by
  refine clean_mapping (List.forall_mem_append.mpr ⟨?_, ?_⟩)
  · exact clean_optionalField (by decide) (htext _ h.1)
  · exact clean_optionalField (by decide) (htext _ h.2)

theorem clean_layerText (s : String) (h : InLine s.toList) : Clean (layerText s) := by
  unfold layerText
  split
  · exact .mergeSign
  · exact .text h

theorem clean_combo {c : Combo} (h : c.Writable) : Clean (comboYaml c) := by
  have hpair : ∀ a b : Int, Clean (.flow [.number a, .number b]) := by
    intro a b
    exact .flow (List.forall_mem_cons.mpr ⟨.number a, List.forall_mem_singleton.mpr (.number b)⟩)
  have hlayers : Clean (.flow (c.layers.map .text)) :=
    .flow (List.forall_mem_map.mpr fun name hname => .text (h.2 name hname))
  have hplaces : Clean (.flow [.flow [.number c.left.col, .number c.left.row],
      .flow [.number c.right.col, .number c.right.row]]) :=
    .flow (List.forall_mem_cons.mpr ⟨hpair _ _, List.forall_mem_singleton.mpr (hpair _ _)⟩)
  have hlabel : Clean (labelYaml .text c.label) := clean_label (fun _ => .text) h.1
  apply clean_mapping
  simp only [List.forall_mem_cons]
  exact ⟨⟨by decide, hpair _ _⟩, ⟨by decide, hplaces⟩, ⟨by decide, hlabel⟩, ⟨by decide, hlayers⟩,
    List.forall_mem_nil _⟩

theorem clean_layer {l : LayerLabels} (h : l.Writable) :
    IsKey (layerYaml l).1 ∧ Clean (layerYaml l).2 := by
  refine ⟨h.1, .sequence (List.forall_mem_map.mpr fun row hrow => ?_)⟩
  refine .sequence (List.forall_mem_map.mpr fun label hlabel => ?_)
  exact clean_label clean_layerText (h.2 row hrow label hlabel)

theorem tame_render {d : Document} (hkeyboard : InLine d.keyboard.toList)
    (hlayout : InLine d.layout.toList) (hlayers : ∀ l ∈ d.layers, l.Writable)
    (hcombos : ∀ c ∈ d.combos, c.Writable) : Tame (ofChars d.render) := by
  have hkeymap : Clean (.mapping (("qmk_keyboard", .text d.keyboard)
      :: optionalField "qmk_layout" .text d.layout)) := by
    refine clean_mapping (List.forall_mem_cons.mpr ⟨⟨?_, .text hkeyboard⟩, ?_⟩)
    · exact (by decide : IsKey "qmk_keyboard")
    · exact clean_optionalField (by decide) (.text hlayout)
  have hlayers' : Clean (.mapping (d.layers.map layerYaml)) :=
    clean_mapping (List.forall_mem_map.mpr fun l hl => clean_layer (hlayers l hl))
  have hcombos' : Clean (.sequence (d.combos.map comboYaml)) :=
    .sequence (List.forall_mem_map.mpr fun c hc => clean_combo (hcombos c hc))
  have hclean : Clean d.yaml := by
    apply clean_mapping
    simp only [List.forall_mem_cons]
    exact ⟨⟨by decide, hkeymap⟩, ⟨by decide, hlayers'⟩, ⟨by decide, hcombos'⟩,
      List.forall_mem_nil _⟩
  exact hclean.tame_render rfl

theorem tame_of_build {m : Keymap} (hm : m.Writable) {d : Document} (h : build m = .ok d) :
    Tame (ofChars d.render) := by
  obtain ⟨keyboard, hkeyboard, h⟩ := bind_eq_ok_iff.mp h
  obtain ⟨⟨layers, combos⟩, hdraw, h⟩ := bind_eq_ok_iff.mp h
  obtain rfl := pure_eq_ok_iff.mp h
  obtain ⟨hlayers, hcombos⟩ :=
    writable_drawLayers hm (List.Subset.refl _) hdraw (List.forall_mem_nil _)
  refine tame_render ?_ (hm.inLine_getD inLine_nil) hlayers hcombos
  unfold OptionTable.require at hkeyboard
  split at hkeyboard
  · rename_i entry hentry
    obtain rfl := Except.ok.inj hkeyboard
    obtain ⟨v, hv, rfl⟩ := Option.map_eq_some_iff.mp hentry
    exact hm.options _ _ v hv
  · cases hkeyboard

end Diagram

/-! ## 7. All targets -/

/-- What a source without defaults compiles to has no carriage return and no delimiter. -/
theorem Target.lines_of_emit {source : Text} {m : Keymap} (hread : Keymap.read source [] = .ok m)
    {t : Target} {out : String} (h : t.emit m = .ok out) :
    carriageReturn ∉ ofString out ∧ ∀ l ∈ allLines (ofString out), delimiterKind? l = none := by
  have hm := Keymap.writable_of_read hread
  have hchars : ∀ cs : List Char, ofString (String.ofList cs) = ofChars cs := fun cs => by
    rw [ofString, String.toList_ofList]
  cases t with
  | firmware =>
    obtain ⟨table, htable, rfl⟩ := map_eq_ok_iff.mp h
    have htame := Firmware.Table.tame_of_build hm htable
    exact ⟨htame.1, htame.delimiterKind?_eq⟩
  | diagram =>
    obtain ⟨doc, hdoc, rfl⟩ := map_eq_ok_iff.mp h
    have htame := Diagram.tame_of_build hm hdoc
    rw [hchars]
    exact ⟨htame.1, htame.delimiterKind?_eq⟩
  | format =>
    obtain ⟨cs, hcs, rfl⟩ := map_eq_ok_iff.mp h
    have hwf := Keymap.wellFormed_of_read hread
    have hreturn := Format.return_not_mem_format hwf hm.description hcs
    rw [hchars]
    refine ⟨fun hmem => ?_, Format.delimiterKind?_of_format hread hcs⟩
    obtain ⟨c, hc, heq⟩ := List.mem_map.mp hmem
    obtain rfl := Glyph.char.inj heq
    exact hreturn hc

end Keyplan
