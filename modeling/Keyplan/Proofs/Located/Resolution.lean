import Keyplan.Proofs.Keymap.Faults
import Keyplan.Proofs.Located.Parsing
import Keyplan.Proofs.OptionTable

/-!
# Located resolution — what resolvers and backends blame

A resolver of nodes that stand on rows blames a place on a row, and so does a backend, which points
at the keys and chords of the keymap. Only the value of an option can have been written nowhere.
-/

namespace Keyplan

open Outcome

/-! ## 1. Options and custom keys -/

theorem Backend.resolve_eq_error {name : String} {span : Span} {e : Diagnostic}
    (h : Backend.resolve name span = .error e) : e = unknownBackend name span := by
  unfold Backend.resolve at h
  cases hname : Backend.ofName? name with
  | some b =>
    rw [hname] at h
    cases h
  | none =>
    rw [hname] at h
    exact (Except.error.inj h).symm

/-- What resolving a description fails with: something about its form, or the name of a backend. -/
inductive Description.Blames (d : Description) (e : Diagnostic) : Prop
  | structural (h : e.Structural)
  | block {block : OptionsBlock} (written : block ∈ d.options)
    (refused : Backend.resolve block.backend block.backendSpan = .error e)
  | output {key : KeyDeclaration} {out : KeyOutput} (declared : key ∈ d.keys)
    (written : out ∈ key.outputs)
    (refused : Backend.resolve out.backend out.backendSpan = .error e)

theorem Description.Blames.onRows {d : Description} (hd : d.OnRows) {e : Diagnostic}
    (h : d.Blames e) : e.OnRows := by
  cases h with
  | structural h => exact h.toOnRows
  | block written refused =>
    obtain rfl := Backend.resolve_eq_error refused
    exact Diagnostic.onRows_of_span (hd.options _ written).name rfl
  | output declared written refused =>
    obtain rfl := Backend.resolve_eq_error refused
    have hline := (hd.keys _ declared).part (List.mem_cons_of_mem _ (List.mem_map_of_mem written))
    exact Diagnostic.onRows_of_span hline.name rfl

theorem OptionTable.resolve_meets (d : Description) (defaults : List DefaultOption) :
    Meets d.Blames (fun _ => True) (OptionTable.resolve d.options defaults) := by
  apply Meets.foldlM
  · intro block hblock t _
    apply Meets.bind (Q := fun _ => True) (Meets.of_error fun e => .block hblock)
    intro b _
    trivial
  · trivial

theorem CustomKeys.addAll_meets {d : Description} (hd : d.OnRows) {seen : List KeyDeclaration}
    (c : CustomKeys) {decls : List KeyDeclaration} (hseen : ∀ k ∈ seen, k ∈ d.keys)
    (hdecls : ∀ k ∈ decls, k ∈ d.keys) :
    Meets d.Blames (fun _ => True) (addAll seen c decls) := by
  induction decls generalizing seen c with
  | nil => trivial
  | cons k rest ih =>
    obtain ⟨hk, hrest⟩ := List.forall_mem_cons.mp hdecls
    rw [addAll]
    split
    · rename_i first hfirst
      have hname : first.nameSpan.OnRow :=
        (hd.keys _ (hseen _ (List.mem_of_find?_eq_some hfirst))).name
      have hrows : (duplicateKey first k).OnRows :=
        ⟨(hd.keys _ hk).name, by simpa [duplicateKey] using hname⟩
      exact .structural ⟨hrows, rfl⟩
    · have houtputs : Meets d.Blames (fun _ => True) (k.outputs.foldlM (addOutput k.name) c) := by
        apply Meets.foldlM
        · intro out hout c _
          apply Meets.bind (Q := fun _ => True) (Meets.of_error fun e => .output hk hout)
          intro b _
          trivial
        · trivial
      apply houtputs.bind
      intro c' _
      apply ih c' _ hrest
      exact List.forall_mem_append.mpr ⟨hseen, List.forall_mem_singleton.mpr hk⟩

/-! ## 2. Layouts -/

namespace Layout

theorem checkCoordinate_meets (what : String) (n : Int) {span : Span} (h : span.OnRow) :
    Meets Diagnostic.Structural (fun _ => True) (checkCoordinate what n span) := by
  unfold checkCoordinate
  split
  · trivial
  · exact Diagnostic.structural_of_span h rfl rfl

theorem locate_meets (col row : Int) {span : Span} (h : span.OnRow) :
    Meets Diagnostic.Structural (fun _ => True) (MatrixPos.locate col row span) := by
  refine (checkCoordinate_meets "row" row h).bind fun r _ => ?_
  exact (checkCoordinate_meets "column" col h).bind fun c _ => trivial

namespace RowClaims

def OnRows (r : RowClaims) : Prop :=
  ∀ c ∈ r.claims, c.2.OnRow

theorem addKey_meets {row : Nat} {column : Int} {span : Span} {r : RowClaims} (h : span.OnRow)
    (hr : r.OnRows) : Meets Diagnostic.Structural OnRows (r.addKey row column span) := by
  refine (locate_meets column row h).bind fun pos _ => ?_
  refine (checkCoordinate_meets "column" r.next h).bind fun _ _ => ?_
  split
  · rename_i col first hfirst
    have hclaim := hr _ (List.mem_of_find?_eq_some hfirst)
    exact ⟨⟨h, by simpa [overlap] using hclaim⟩, rfl⟩
  · exact List.forall_mem_append.mpr ⟨hr, List.forall_mem_singleton.mpr h⟩

theorem addKeys_meets {row : Nat} {span : Span} (h : span.OnRow) (n : Nat) {r : RowClaims}
    (hr : r.OnRows) : Meets Diagnostic.Structural OnRows (addKeys row span n r) := by
  induction n generalizing r with
  | zero => exact hr
  | succ n ih => exact (addKey_meets h hr).bind fun r' hr' => ih hr'

theorem addSpaces_meets {span : Span} (h : span.OnRow) (n : Nat) {r : RowClaims}
    (hr : r.OnRows) : Meets Diagnostic.Structural OnRows (addSpaces span n r) := by
  induction n generalizing r with
  | zero => exact hr
  | succ n ih =>
    refine (checkCoordinate_meets "column" r.next h).bind fun _ _ => ?_
    apply ih
    exact hr

theorem addItem_meets {row : Nat} {item : LayoutItem} {r : RowClaims} (h : item.span.OnRow)
    (hr : r.OnRows) : Meets Diagnostic.Structural OnRows (addItem row r item) := by
  unfold addItem
  split
  · split
    · exact Diagnostic.structural_of_span h rfl rfl
    · exact addKeys_meets h _ hr
  · split
    · exact Diagnostic.structural_of_span h rfl rfl
    · exact addSpaces_meets h _ hr
  · exact addKey_meets h hr

end RowClaims

theorem item_onRow {node : LayoutRow} (hnode : node.outline.Everywhere Span.OnRow)
    {item : LayoutItem} (hitem : item ∈ node.items) : item.span.OnRow :=
  (hnode.part (List.mem_append_left _ (List.mem_map_of_mem hitem))).here

theorem resolveRow_meets (row : Nat) {node : LayoutRow}
    (h : node.outline.Everywhere Span.OnRow) :
    Meets Diagnostic.Structural (fun _ => True) (resolveRow row node) := by
  refine (checkCoordinate_meets "row" row h.here).bind fun _ _ => ?_
  have hitems : Meets Diagnostic.Structural RowClaims.OnRows
      (node.items.foldlM (RowClaims.addItem row) {}) := by
    refine Meets.foldlM (fun item hitem r hr => ?_) (fun c hc => nomatch hc)
    exact RowClaims.addItem_meets (item_onRow h hitem) hr
  exact hitems.bind fun _ _ => trivial

theorem resolveRows_meets (row : Nat) {first : Option (Nat × Span)}
    (hfirst : ∀ p ∈ first, p.2.OnRow) {rows : List LayoutRow}
    (hrows : ∀ r ∈ rows, r.outline.Everywhere Span.OnRow) :
    Meets Diagnostic.Structural (fun _ => True) (resolveRows row first rows) := by
  induction rows generalizing row first with
  | nil => trivial
  | cons node rest ih =>
    obtain ⟨hnode, hrest⟩ := List.forall_mem_cons.mp hrows
    rw [resolveRows]
    refine (resolveRow_meets row hnode).bind fun slots _ => ?_
    have hgetD : (first.getD (slots.length, node.span)).2.OnRow := by
      cases first with
      | none => exact hnode.here
      | some p => exact hfirst p rfl
    dsimp only
    split
    · exact ⟨⟨hnode.here, by simpa [widthMismatch] using hgetD⟩, rfl⟩
    · refine (ih (row + 1) ?_ hrest).bind fun _ _ => trivial
      simpa using hgetD

theorem remapFaults_structural {width : Nat} {rows : List LayoutRow}
    (hrows : ∀ r ∈ rows, r.outline.Everywhere Span.OnRow) {d : Diagnostic}
    (h : remapFaults width rows = some d) : d.Structural := by
  obtain ⟨⟨node, row⟩, hnode, h⟩ := List.exists_of_findSome?_eq_some h
  obtain ⟨item, hitem, h⟩ := List.exists_of_findSome?_eq_some h
  have hspan := item_onRow (hrows node (List.fst_mem_of_mem_zipIdx hnode)) hitem
  unfold remapFault? at h
  split at h
  · split at h
    · cases h
    · obtain rfl := Option.some.inj h
      exact Diagnostic.structural_of_span hspan rfl rfl
  · cases h

theorem resolve_meets {block : LayoutBlock} (h : block.outline.Everywhere Span.OnRow) :
    Meets Diagnostic.Structural (fun _ => True) (resolve block) := by
  have hrows : ∀ r ∈ block.rows, r.outline.Everywhere Span.OnRow := by
    intro r hr
    exact h.part (List.mem_map_of_mem hr)
  unfold resolve
  split
  · exact Diagnostic.structural_of_span h.here rfl rfl
  · refine (resolveRows_meets 0 (by simp) hrows).bind fun slots _ => ?_
    dsimp only
    split
    · rename_i fault hfault
      exact remapFaults_structural hrows hfault
    · trivial

end Layout

/-! ## 3. Layers -/

namespace Layer

def PlacedOnRows (p : List PlacedKey × List PlacedChord) : Prop :=
  (∀ k ∈ p.1, k.key.outline.Everywhere Span.OnRow) ∧
    ∀ c ∈ p.2, c.chord.outline.Everywhere Span.OnRow

theorem keyUnder_meets (layout : Layout) (p : LayoutPos) {span : Span} (h : span.OnRow) :
    Meets Diagnostic.Structural (fun _ => True) (keyUnder layout p span) := by
  unfold keyUnder
  split
  · trivial
  · exact Diagnostic.structural_of_span h rfl rfl

theorem itemSpan_onRow {i : RowItem} (h : i.outline.Everywhere Span.OnRow) : i.span.OnRow := by
  cases i with
  | key k => exact h.here
  | chord c => exact h.here

section Rows

variable {layout : Layout} {node : LayerRow}

theorem badChord_structural (hspan : node.span.OnRow) (hsemi : node.semicolon.OnRow)
    {previous next : Option RowItem} (hprevious : ∀ i ∈ previous, i.outline.Everywhere Span.OnRow)
    (hnext : ∀ i ∈ next, i.outline.Everywhere Span.OnRow) {c : Chord} (hc : c.span.OnRow) :
    (badChord node previous next c).Structural := by
  refine ⟨⟨hc, List.forall_mem_cons.mpr ⟨?_, List.forall_mem_singleton.mpr ?_⟩⟩, rfl⟩
  · cases previous with
    | none => exact hspan.first
    | some i => exact itemSpan_onRow (hprevious i rfl)
  · cases next with
    | none => exact hsemi
    | some i => exact itemSpan_onRow (hnext i rfl)

theorem placeChord_meets (hspan : node.span.OnRow) (hsemi : node.semicolon.OnRow)
    {previous next : Option RowItem} (hprevious : ∀ i ∈ previous, i.outline.Everywhere Span.OnRow)
    (hnext : ∀ i ∈ next, i.outline.Everywhere Span.OnRow) (row col : Nat) {c : Chord}
    (hc : c.outline.Everywhere Span.OnRow) :
    Meets Diagnostic.Structural (fun p => p.chord.outline.Everywhere Span.OnRow)
      (placeChord layout node row col previous next c) := by
  unfold placeChord
  split
  · rename_i k k'
    have hk := itemSpan_onRow (hprevious _ rfl)
    have hk' := itemSpan_onRow (hnext _ rfl)
    refine (keyUnder_meets layout _ hk).bind fun left _ => ?_
    exact (keyUnder_meets layout _ hk').bind fun right _ => hc
  · exact badChord_structural hspan hsemi hprevious hnext hc.here

theorem placeItems_meets (hspan : node.span.OnRow) (hsemi : node.semicolon.OnRow) (row : Nat)
    {previous : Option RowItem} (hprevious : ∀ i ∈ previous, i.outline.Everywhere Span.OnRow)
    (col : Nat) {items : List RowItem} (hitems : ∀ i ∈ items, i.outline.Everywhere Span.OnRow) :
    Meets Diagnostic.Structural PlacedOnRows (placeItems layout node row previous col items) := by
  induction items generalizing previous col with
  | nil => exact ⟨by simp, by simp⟩
  | cons i rest ih =>
    obtain ⟨hi, hrest⟩ := List.forall_mem_cons.mp hitems
    have hbehind : ∀ col, Meets Diagnostic.Structural PlacedOnRows
        (placeItems layout node row (some i) col rest) :=
      fun col => ih (by simpa using hi) col hrest
    cases i with
    | key k =>
      refine (keyUnder_meets layout ⟨col, row⟩ (itemSpan_onRow hi)).bind fun under _ => ?_
      refine (hbehind (col + 1)).bind fun p hp => ?_
      exact ⟨List.forall_mem_cons.mpr ⟨hi, hp.1⟩, hp.2⟩
    | chord c =>
      have hnext : ∀ i ∈ rest.head?, i.outline.Everywhere Span.OnRow :=
        fun i hi => hrest i (List.mem_of_head? hi)
      refine (placeChord_meets hspan hsemi hprevious hnext row col hi).bind fun placed hplaced => ?_
      refine (hbehind col).bind fun p hp => ?_
      exact ⟨hp.1, List.forall_mem_cons.mpr ⟨hplaced, hp.2⟩⟩

end Rows

theorem placeRows_meets (layout : Layout) (name : String) (row : Nat) {rows : List LayerRow}
    (hrows : ∀ r ∈ rows, r.outline.Everywhere Span.OnRow) :
    Meets Diagnostic.Structural PlacedOnRows (placeRows layout name row rows) := by
  induction rows generalizing row with
  | nil => exact ⟨by simp, by simp⟩
  | cons node rest ih =>
    obtain ⟨hnode, hrest⟩ := List.forall_mem_cons.mp hrows
    have hspan : node.span.OnRow := hnode.here
    have hitems : ∀ i ∈ node.items, i.outline.Everywhere Span.OnRow :=
      fun i hi => hnode.part (List.mem_append_left _ (List.mem_map_of_mem hi))
    have hsemi : node.semicolon.OnRow :=
      (hnode.part (List.mem_append_right _ List.mem_cons_self)).here
    rw [placeRows]
    split
    · exact Diagnostic.structural_of_span hspan rfl rfl
    · refine (placeItems_meets hspan hsemi row (by simp) 0 hitems).bind fun p hp => ?_
      refine (ih (row + 1) hrest).bind fun q hq => ?_
      exact ⟨List.forall_mem_append.mpr ⟨hp.1, hq.1⟩, List.forall_mem_append.mpr ⟨hp.2, hq.2⟩⟩

def OnRows (l : Layer) : Prop :=
  PlacedOnRows (l.keys, l.chords)

theorem checkNames_meets {seen blocks : List LayerBlock}
    (hseen : ∀ b ∈ seen, b.outline.Everywhere Span.OnRow)
    (hblocks : ∀ b ∈ blocks, b.outline.Everywhere Span.OnRow) :
    Meets Diagnostic.Structural (fun _ => True) (checkNames seen blocks) := by
  induction blocks generalizing seen with
  | nil => trivial
  | cons b rest ih =>
    obtain ⟨hb, hrest⟩ := List.forall_mem_cons.mp hblocks
    rw [checkNames]
    split
    · rename_i first hfirst
      have hname : first.nameSpan.OnRow := (hseen _ (List.mem_of_find?_eq_some hfirst)).name
      exact ⟨⟨hb.name, by simpa [duplicateLayer] using hname⟩, rfl⟩
    · apply ih _ hrest
      exact List.forall_mem_append.mpr ⟨hseen, List.forall_mem_singleton.mpr hb⟩

theorem resolveAll_meets (layout : Layout) {blocks : List LayerBlock}
    (hblocks : ∀ b ∈ blocks, b.outline.Everywhere Span.OnRow) :
    Meets Diagnostic.Structural (fun ls => ∀ l ∈ ls, l.OnRows) (resolveAll layout blocks) := by
  refine (checkNames_meets (by simp) hblocks).bind fun _ _ => ?_
  refine Meets.mapM fun b hb => ?_
  have hrows : ∀ r ∈ b.rows, r.outline.Everywhere Span.OnRow := fun r hr =>
    (hblocks b hb).part (List.mem_cons_of_mem _ (List.mem_map_of_mem hr))
  exact (placeRows_meets layout b.name 0 hrows).bind fun p hp => hp

end Layer

/-! ## 4. Keymaps -/

/-- A keymap whose places are on rows; the values of options are left out. -/
structure Keymap.OnRows (m : Keymap) : Prop where
  layers : ∀ l ∈ m.layers, l.OnRows
  blocks : ∀ b s, m.options.blocks.get? b = some s → s.OnRow
  anchor : m.options.anchor.OnRow

theorem Keymap.resolve_meets {d : Description} (hd : d.OnRows) (defaults : List DefaultOption) :
    Meets d.Blames (fun m => m.description = d ∧ m.OnRows ∧
      OptionTable.InForce d.options defaults m.options) (Keymap.resolve d defaults) := by
  unfold Keymap.resolve
  cases hoptions : OptionTable.resolve d.options defaults with
  | error e =>
    have h := OptionTable.resolve_meets d defaults
    rw [hoptions] at h
    exact h
  | ok options =>
    have hforce := OptionTable.resolve_inForce hoptions
    have hform : ∀ e : Diagnostic, e.Structural → d.Blames e := fun _ => .structural
    refine (CustomKeys.addAll_meets hd {} (by simp) fun _ h => h).bind fun customKeys _ => ?_
    refine ((Layout.resolve_meets hd.layout).mono hform fun _ h => h).bind fun layout _ => ?_
    refine ((Layer.resolveAll_meets layout hd.layers).mono hform fun _ h => h).bind
      fun layers hlayers => ?_
    refine ⟨rfl, ⟨hlayers, ?_, hd.layout.here.first⟩, ⟨hforce.get?_eq, hforce.blocks_eq⟩⟩
    intro b s hs
    rw [hforce.blocks_eq] at hs
    obtain ⟨block, hblock, rfl⟩ := Option.map_eq_some_iff.mp hs
    exact (hd.options block (List.mem_of_find?_eq_some hblock)).here

/-! ## 5. Backends -/

/-- What a backend can fail with: a diagnostic on rows, or what is wrong with the value of a numeric
option. -/
def Keymap.Blames (m : Keymap) (d : Diagnostic) : Prop :=
  d.OnRows ∨ ∃ b name n, m.options.number b name n = .error d

theorem Key.plain_onRow {k : Key} (h : k.outline.Everywhere Span.OnRow) {p : PlainKey}
    (hp : p ∈ k.plainKeys) : p.span.OnRow :=
  (h.part (List.mem_map_of_mem hp)).here

theorem Layer.OnRows.bindings {l : Layer} (hl : l.OnRows) {k : Key} (hk : k ∈ l.bindings) :
    k.outline.Everywhere Span.OnRow := by
  rcases List.mem_append.mp hk with hk | hk
  · obtain ⟨placed, hplaced, rfl⟩ := List.mem_map.mp hk
    exact hl.1 placed hplaced
  · obtain ⟨c, hc, rfl⟩ := List.mem_map.mp hk
    exact (hl.2 c hc).part List.mem_cons_self

theorem Firmware.allocate_meets (a : Allocator ChordPair) (pair : ChordPair) {span : Span}
    (h : span.OnRow) : Meets Diagnostic.Structural (fun _ => True) (a.allocate pair span) := by
  unfold Allocator.allocate
  split
  · trivial
  · exact (Layout.locate_meets _ _ h).bind fun _ _ => trivial

namespace Keymap

variable {m : Keymap} {b : Backend} {d : Diagnostic}

theorem resolveLayer_eq_error {name : String} {span : Span}
    (h : m.resolveLayer name span = .error d) :
    d = { cause := .meaning .unknownLayer, detail := name, span := span
          suggestions := Suggestion.didYouMean name m.layerNames } := by
  unfold resolveLayer at h
  cases hindex : m.layerIndex? name with
  | some i =>
    rw [hindex] at h
    cases h
  | none =>
    rw [hindex] at h
    exact (Except.error.inj h).symm

theorem resolveName_eq_error {name : String} {span : Span}
    (h : m.resolveName b name span = .error d) : d = m.unknownKey b name span := by
  unfold resolveName at h
  cases hcustom : m.customKeys.get? b name with
  | some output =>
    rw [hcustom] at h
    cases h
  | none =>
    rw [hcustom] at h
    cases hnamed : NamedKey.find? name with
    | some key =>
      rw [hnamed] at h
      cases h
    | none =>
      rw [hnamed] at h
      exact (Except.error.inj h).symm

theorem resolveChar_eq_error {c : Char} {span : Span} (h : resolveChar c span = .error d) :
    d = { cause := .meaning .unknownCharKey, detail := quotedChar c, span := span } := by
  unfold resolveChar at h
  cases hkey : CharKey.find? c with
  | some key =>
    rw [hkey] at h
    cases h
  | none =>
    rw [hkey] at h
    exact (Except.error.inj h).symm

theorem Refuses.onRows {p : PlainKey} (hp : p.span.OnRow) (h : m.Refuses b p d) : d.OnRows := by
  cases h with
  | layer meaning refused =>
    obtain rfl := resolveLayer_eq_error refused
    exact Diagnostic.onRows_of_span hp rfl
  | char meaning refused =>
    obtain rfl := resolveChar_eq_error refused
    exact Diagnostic.onRows_of_span hp rfl
  | named meaning refused =>
    obtain rfl := resolveName_eq_error refused
    exact Diagnostic.onRows_of_span hp rfl

/-- A missing option is blamed on the options block of its backend, or on the layout. -/
theorem require_eq_error {name : String} (hm : m.OnRows)
    (h : m.options.require b name = .error d) : d.Structural := by
  unfold OptionTable.require at h
  cases hlookup : m.options.lookup b name with
  | some e =>
    rw [hlookup] at h
    cases h
  | none =>
    rw [hlookup] at h
    obtain rfl := Except.error.inj h
    refine Diagnostic.structural_of_span ?_ rfl rfl
    show ((m.options.blocks.get? b).getD m.options.anchor).OnRow
    cases hblock : m.options.blocks.get? b with
    | none => exact hm.anchor
    | some s => exact hm.blocks b s hblock

/-- What a backend fails with is about form, unless it is the value of a numeric option or the
lookup of a plain key. -/
theorem Fails.cases_structural (hm : m.OnRows) (h : m.Fails b d) :
    d.Structural ∨ (∃ name n, m.options.number b name n = .error d) ∨
      ∃ l ∈ m.layers, ∃ k ∈ l.bindings, ∃ p ∈ k.plainKeys, m.Refuses b p d := by
  cases h with
  | number refused => exact .inr (.inl ⟨_, _, refused⟩)
  | required refused => exact .inl (require_eq_error hm refused)
  | @room l c a hl hc refused =>
    have hchord : c.chord.span.OnRow := ((hm.layers l hl).2 c hc).here
    have hmeets := Firmware.allocate_meets a c.pair hchord
    rw [refused] at hmeets
    exact .inl hmeets
  | key layer bound plain refused => exact .inr (.inr ⟨_, layer, _, bound, _, plain, refused⟩)

theorem Fails.blames (hm : m.OnRows) (h : m.Fails b d) : m.Blames d := by
  rcases h.cases_structural hm with h | ⟨name, n, h⟩ | ⟨l, hl, k, hk, p, hp, h⟩
  · exact .inl h.toOnRows
  · exact .inr ⟨b, name, n, h⟩
  · exact .inl (h.onRows (Key.plain_onRow ((hm.layers l hl).bindings hk) hp))

end Keymap

theorem Target.emit_meets {m : Keymap} (t : Target) (hm : m.OnRows) :
    Meets m.Blames (fun _ => True) (t.emit m) :=
  (t.emit_fails m).mono (fun _ h => h.blames hm) fun _ h => h

end Keyplan
