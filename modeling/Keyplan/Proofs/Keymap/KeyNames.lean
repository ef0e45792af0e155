import Keyplan.Proofs.Keymap.Agreement
import Keyplan.Proofs.OptionTable

/-!
# Key names — the names that are offered are the names that are accepted

Key declarations give names to outputs. What a backend looks up is the last output of a name, and
what it lists are the names with an output, in the order of the declarations. With the named keys
that no custom key hides they are the names a backend understands, once each.
-/

namespace Keyplan

open Outcome

/-- The outputs that a declaration addresses to backend `b`. -/
def KeyDeclaration.outputsFor (d : KeyDeclaration) (b : Backend) : List KeyOutput :=
  d.outputs.filter fun out => out.backend = b.name

theorem Backend.name_inj {b b' : Backend} : b.name = b'.name ↔ b = b' := by
  cases b <;> cases b' <;> decide

theorem KeyDeclaration.outputsFor_concat (d : KeyDeclaration) {out : KeyOutput} {b : Backend}
    (hb : b.name = out.backend) (b' : Backend) :
    outputsFor { d with outputs := d.outputs ++ [out] } b' =
      d.outputsFor b' ++ if b = b' then [out] else [] := by
  unfold outputsFor
  rw [List.filter_append, List.filter_singleton, ← hb]
  by_cases hbb : b = b'
  · rw [if_pos hbb, hbb, decide_eq_true rfl]
    rfl
  · rw [if_neg hbb, decide_eq_false fun e => hbb (Backend.name_inj.mp e)]
    rfl

namespace CustomKeys

/-! ## 1. Custom keys -/

/-- The names of the declarations with an output for backend `b`. -/
def namesFor (decls : List KeyDeclaration) (b : Backend) : List String :=
  (decls.filter fun d => d.outputsFor b ≠ []).map (·.name)

theorem namesFor_concat (decls : List KeyDeclaration) (d : KeyDeclaration) (b : Backend) :
    namesFor (decls ++ [d]) b =
      namesFor decls b ++ if d.outputsFor b = [] then [] else [d.name] := by
  unfold namesFor
  rw [List.filter_append, List.map_append]
  by_cases hout : d.outputsFor b = []
  · simp [hout]
  · simp [hout]

theorem mem_of_mem_namesFor {decls : List KeyDeclaration} {b : Backend} {name : String}
    (h : name ∈ namesFor decls b) : name ∈ decls.map (·.name) := by
  obtain ⟨d, hd, hname⟩ := List.mem_map.mp h
  exact List.mem_map.mpr ⟨d, (List.mem_filter.mp hd).1, hname⟩

/-- The outputs and the names that declarations give to the backends. -/
structure Holds (decls : List KeyDeclaration) (c : CustomKeys) : Prop where
  get?_eq : ∀ b name, c.get? b name =
    ((decls.find? fun d => d.name = name).bind fun d => (d.outputsFor b).getLast?).map fun out =>
      ⟨out.text, out.span⟩
  names_eq : ∀ b, c.names b = namesFor decls b

theorem names_eq_keys (c : CustomKeys) (b : Backend) :
    c.names b = OrderedMap.keys (OrderedMap.addressed b c.outputs) := rfl

theorem mem_names_iff {c : CustomKeys} {b : Backend} {name : String} :
    name ∈ c.names b ↔ (c.get? b name).isSome := by
  rw [names_eq_keys, get?, ← OrderedMap.get?_addressed, ← not_iff_not,
    Option.not_isSome_iff_eq_none, OrderedMap.get?_eq_none_iff]

theorem Holds.declare {seen : List KeyDeclaration} {c : CustomKeys} (hc : Holds seen c)
    (d : KeyDeclaration) : Holds (seen ++ [{ d with outputs := [] }]) c := by
  constructor
  · intro b name
    rw [hc.get?_eq, List.find?_append]
    cases hfind : seen.find? fun d => d.name = name with
    | some first => rfl
    | none =>
      by_cases hname : d.name = name
      · simp [hname, KeyDeclaration.outputsFor]
      · simp [hname]
  · intro b
    rw [hc.names_eq, namesFor_concat]
    exact (List.append_nil _).symm

theorem Holds.addOutput {seen : List KeyDeclaration} {d : KeyDeclaration} {c : CustomKeys}
    (hc : Holds (seen ++ [d]) c) (hfresh : d.name ∉ seen.map (·.name)) {out : KeyOutput}
    {b : Backend} (hb : b.name = out.backend) :
    Holds (seen ++ [{ d with outputs := d.outputs ++ [out] }])
      { c with outputs := c.outputs.insert (b, d.name) ⟨out.text, out.span⟩ } := by
  have hnone : (seen.find? fun d' => d'.name = d.name) = none := by
    rw [List.find?_eq_none]
    intro first hfirst hname
    exact hfresh (List.mem_map.mpr ⟨first, hfirst, of_decide_eq_true hname⟩)
  constructor
  · intro b' name
    have hc' := hc.get?_eq b' name
    unfold get? at hc' ⊢
    rw [OrderedMap.get?_insert, hc', List.find?_append, List.find?_append]
    by_cases hname : d.name = name
    · subst hname
      rw [hnone]
      simp only [Option.none_or, List.find?_singleton, decide_true, if_true, Option.bind_some,
        d.outputsFor_concat hb, Prod.mk.injEq, and_true]
      by_cases hbb : b = b'
      · rw [if_pos hbb, if_pos hbb, List.getLast?_append]
        rfl
      · rw [if_neg hbb, if_neg hbb, List.append_nil]
    · have hne : (b, d.name) ≠ (b', name) := fun e => hname (Prod.mk.inj e).2
      rw [if_neg hne]
      simp [hname]
  · intro b'
    have hc' := hc.names_eq b'
    rw [names_eq_keys] at hc' ⊢
    rw [OrderedMap.addressed_insert]
    by_cases hbb : b = b'
    · -- The name is listed with the first output for the backend.
      have hseen : d.name ∉ namesFor seen b' := fun hmem => hfresh (mem_of_mem_namesFor hmem)
      rw [if_pos hbb, OrderedMap.keys_insert, hc', namesFor_concat, namesFor_concat,
        d.outputsFor_concat hb, if_pos hbb]
      by_cases hout : d.outputsFor b' = []
      · simp [hout, hseen]
      · simp [hout]
    · rw [if_neg hbb, hc', namesFor_concat, namesFor_concat, d.outputsFor_concat hb, if_neg hbb,
        List.append_nil]

theorem addOutputs_decides {seen : List KeyDeclaration} {c : CustomKeys} (hc : Holds seen c)
    {d : KeyDeclaration} (hfresh : d.name ∉ seen.map (·.name)) :
    Decides (∀ out ∈ d.outputs, out.backend ∈ Backend.names) (Holds (seen ++ [d]))
      (d.outputs.foldlM (addOutput d.name) c) := by
  -- The outputs that were read are those of a declaration of their own.
  have hstep : ∀ done out c, Holds (seen ++ [{ d with outputs := done }]) c →
      Decides (out.backend ∈ Backend.names)
        (Holds (seen ++ [{ d with outputs := done ++ [out] }])) (addOutput d.name c out) := by
    intro done out c hc
    unfold addOutput
    apply (Backend.resolve_decides out.backend out.backendSpan).bind
    · exact id
    · intro b hknown hb
      exact ⟨hknown, hc.addOutput hfresh hb⟩
  exact Decides.foldlM (Q := fun done => Holds (seen ++ [{ d with outputs := done }])) hstep
    d.outputs [] (hc.declare d)

theorem addAll_decides {seen : List KeyDeclaration} {c : CustomKeys} (hc : Holds seen c)
    (hseen : (seen.map (·.name)).Nodup) (rest : List KeyDeclaration) :
    Decides (((seen ++ rest).map (·.name)).Nodup ∧
        ∀ d ∈ rest, ∀ out ∈ d.outputs, out.backend ∈ Backend.names)
      (Holds (seen ++ rest)) (addAll seen c rest) := by
  induction rest generalizing seen c with
  | nil =>
    rw [List.append_nil]
    exact ⟨⟨hseen, List.forall_mem_nil _⟩, hc⟩
  | cons d rest ih =>
    unfold addAll
    cases hfirst : seen.find? (·.name == d.name) with
    | some first =>
      -- The name was declared before, so the names are not distinct.
      rintro ⟨hnodup, -⟩
      have hname := List.find?_some hfirst
      have hmem : d.name ∈ seen.map (·.name) :=
        List.mem_map.mpr ⟨first, List.mem_of_find?_eq_some hfirst, eq_of_beq hname⟩
      rw [List.map_append, List.nodup_append] at hnodup
      exact hnodup.2.2 _ hmem _ List.mem_cons_self rfl
    | none =>
      -- What carries the induction: the names seen are distinct, and the keys hold their outputs.
      have hfresh : d.name ∉ seen.map (·.name) := by
        intro hmem
        obtain ⟨first, hfirst', hname⟩ := List.mem_map.mp hmem
        exact List.find?_eq_none.mp hfirst first hfirst' (beq_iff_eq.mpr hname)
      have hseen' : ((seen ++ [d]).map (·.name)).Nodup := by
        rw [List.map_append]
        exact List.nodup_append.mpr ⟨hseen, by simp, by simpa using hfresh⟩
      apply (addOutputs_decides hc hfresh).bind
      · intro h
        exact h.2 d List.mem_cons_self
      · intro c' hknown hc'
        have hrest := ih hc' hseen'
        rw [List.append_assoc] at hrest
        apply hrest.congr
        · rw [List.forall_mem_cons, and_iff_right hknown]
          rfl
        · intro c'' _ hc''
          exact hc''

theorem resolve_decides (decls : List KeyDeclaration) :
    Decides ((decls.map (·.name)).Nodup ∧
        ∀ d ∈ decls, ∀ out ∈ d.outputs, out.backend ∈ Backend.names)
      (Holds decls) (resolve decls) := by
  have hnone : Holds [] {} := ⟨fun _ _ => rfl, fun _ => rfl⟩
  exact addAll_decides hnone List.nodup_nil decls

end CustomKeys

/-! ## 2. The names that are offered -/

theorem NamedKey.names_nodup : NamedKey.names.Nodup := by
  decide +kernel

namespace Keymap

theorem mem_keyNames_iff {m : Keymap} {b : Backend} {name : String} :
    name ∈ m.keyNames b ↔ (m.customKeys.get? b name).isSome ∨ name ∈ NamedKey.names := by
  unfold keyNames
  rw [List.mem_append, CustomKeys.mem_names_iff, List.mem_filter]
  cases m.customKeys.get? b name <;> simp

/-- A custom key takes the place of the named key that it hides. -/
theorem keyNames_nodup {m : Keymap} {b : Backend} (h : (m.customKeys.names b).Nodup) :
    (m.keyNames b).Nodup := by
  refine List.nodup_append.mpr ⟨h, NamedKey.names_nodup.filter _, ?_⟩
  rintro name hcustom name' hnamed rfl
  have hnone : m.customKeys.get? b name = none :=
    Option.isNone_iff_eq_none.mp (List.mem_filter.mp hnamed).2
  have hsome := CustomKeys.mem_names_iff.mp hcustom
  rw [hnone] at hsome
  cases hsome

theorem fault?_named (m : Keymap) (b : Backend) (name : String) (span : Span) :
    m.fault? b ⟨.named name, span⟩ =
      if name ∈ m.keyNames b then none else some .unknownNamedKey := by
  simp only [fault?, mem_keyNames_iff]

/-- A step that checks a single key succeeds when nothing is wrong with the key. -/
theorem accepts_iff {α : Type} {m : Keymap} {b : Backend} {k : PlainKey}
    {x : Except Diagnostic α} (hx : Checks (m.offence? b) [k] x) :
    (∃ a, x = .ok a) ↔ m.fault? b k = none := by
  rw [hx.succeeds_iff, List.forall_mem_singleton, offence?, Option.map_eq_none_iff]

theorem mem_keyNames_iff_accepts {α : Type} {m : Keymap} {b : Backend} {name : String}
    {span : Span} {x : Except Diagnostic α} (hx : Checks (m.offence? b) [⟨.named name, span⟩] x) :
    name ∈ m.keyNames b ↔ ∃ a, x = .ok a := by
  rw [accepts_iff hx, fault?_named]
  by_cases hname : name ∈ m.keyNames b
  · simp [hname]
  · simp [hname]

end Keymap

namespace CustomKeys

/-- Key declarations can be resolved exactly when no name is declared twice and every output is for
a backend that exists. Then a backend finds the last output that the declaration of a name has for
it, it lists the names with such an output in the order they were declared, once each, and a keymap
with these custom keys offers no name twice. In every keymap, the names offered for the firmware are
those that it binds, and the names offered for diagrams are those that they label. -/
theorem resolve_offers :
    (∀ decls : List KeyDeclaration,
      ((∃ c, resolve decls = .ok c) ↔ (decls.map (·.name)).Nodup ∧
        ∀ d ∈ decls, ∀ out ∈ d.outputs, out.backend ∈ Backend.names) ∧
      ∀ c, resolve decls = .ok c →
        (∀ b name, c.get? b name =
          ((decls.find? fun d => d.name = name).bind fun d => (d.outputsFor b).getLast?).map
            fun out => ⟨out.text, out.span⟩) ∧
        (∀ b, c.names b = (decls.filter fun d => d.outputsFor b ≠ []).map (·.name) ∧
          (c.names b).Nodup) ∧
        ∀ m : Keymap, m.customKeys = c → ∀ b, (m.keyNames b).Nodup) ∧
    (∀ (binder : Firmware.Binder) (name : String) (span : Span),
      name ∈ binder.keymap.keyNames .firmware ↔
        ∃ action, binder.bindPlain ⟨.named name, span⟩ = .ok action) ∧
    ∀ (m : Keymap) (name : String) (span : Span),
      name ∈ m.keyNames .diagram ↔
        ∃ label, Diagram.plainLabel m ⟨.named name, span⟩ = .ok label := by
  refine ⟨?_, ?_, ?_⟩
  · intro decls
    have hresolve := resolve_decides decls
    refine ⟨hresolve.succeeds_iff, ?_⟩
    intro c hc
    obtain ⟨⟨hdistinct, -⟩, hholds⟩ := hresolve.of_ok hc
    have hnodup : ∀ b, (c.names b).Nodup := by
      intro b
      rw [hholds.names_eq]
      exact hdistinct.sublist (List.filter_sublist.map _)
    refine ⟨hholds.get?_eq, fun b => ⟨hholds.names_eq b, hnodup b⟩, ?_⟩
    rintro m rfl b
    exact Keymap.keyNames_nodup (hnodup b)
  · intro binder name span
    exact Keymap.mem_keyNames_iff_accepts (binder.bindPlain_checks _)
  · intro m name span
    exact Keymap.mem_keyNames_iff_accepts (Diagram.plainLabel_checks m _)

/-- A custom key for both backends, one for the firmware that hides a named key, and a named key. -/
def hidingKey : Text :=
  Text.ofString ("layout\x7b3k;\x7dkey cut\x7bout firmware:\"C\";out diagram:\"D\";\x7d" ++
    "key esc\x7bout firmware:\"A\";out firmware:\"B\";\x7dlayer l\x7bcut esc tab;\x7d")

theorem resolve_offers_hidingKey : ∃ m, Keymap.read hidingKey [] = .ok m ∧
    resolve m.description.keys = .ok m.customKeys ∧
    m.customKeys.names .firmware = ["cut", "esc"] ∧ m.customKeys.names .diagram = ["cut"] ∧
    (m.customKeys.get? .firmware "esc").map (·.text) = some "B" ∧
    (m.keyNames .firmware).Nodup ∧ "esc" ∈ m.keyNames .firmware ∧
    (∃ label, Diagram.plainLabel m ⟨.named "esc", {}⟩ = .ok label) ∧
    ¬ ∃ label, Diagram.plainLabel m ⟨.named "paste", {}⟩ = .ok label := by
  have hrun : (do
      let m ← Keymap.read hidingKey []
      let c ← resolve m.description.keys
      return decide (c.outputs = m.customKeys.outputs ∧
        namesFor m.description.keys .firmware = ["cut", "esc"] ∧
        namesFor m.description.keys .diagram = ["cut"] ∧
        (((m.description.keys.find? fun d => d.name = "esc").bind fun d =>
          (d.outputsFor .firmware).getLast?).map (·.text)) = some "B" ∧
        "esc" ∈ m.keyNames .firmware ∧ "esc" ∈ m.keyNames .diagram ∧
        "paste" ∉ m.keyNames .diagram) : Except Diagnostic Bool).toOption = some true := by
    decide +kernel
  obtain ⟨m, hm, hrun⟩ := bind_eq_ok_iff.mp (toOption_eq_some_iff.mp hrun)
  obtain ⟨⟨outputs⟩, hc, hrun⟩ := bind_eq_ok_iff.mp hrun
  obtain ⟨hsame, hfirmware, hdiagram, hlast, hbound, hdrawn, hunknown⟩ :=
    of_decide_eq_true (pure_eq_ok_iff.mp hrun)
  subst hsame
  obtain ⟨hresolve, -, hlabel⟩ := resolve_offers
  obtain ⟨hget, hnames, hnodup⟩ := (hresolve m.description.keys).2 m.customKeys hc
  refine ⟨m, hm, hc, (hnames _).1.trans hfirmware, (hnames _).1.trans hdiagram, ?_,
    hnodup m rfl _, hbound, (hlabel m _ _).mp hdrawn, fun h => hunknown ((hlabel m _ _).mpr h)⟩
  rw [hget, Option.map_map]
  exact hlast

end CustomKeys

end Keyplan
