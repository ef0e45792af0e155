import Keyplan.OptionTable
import Keyplan.Proofs.OrderedMap
import Keyplan.Proofs.Outcome

/-!
# Options in force — where the value of an option comes from

The value of an option is the one of its last line, or else of its last default. The place shown for
a backend is the one of its first options block.
-/

namespace Keyplan

open Outcome

/-! ## 1. Backends by name -/

theorem Backend.ofName?_eq_some_iff {s : String} {b : Backend} :
    Backend.ofName? s = some b ↔ b.name = s := by
  constructor
  · intro h
    unfold Backend.ofName? at h
    have hname := List.find?_some h
    exact eq_of_beq hname
  · rintro rfl
    cases b <;> rfl

theorem Backend.mem_names_iff {s : String} : s ∈ Backend.names ↔ ∃ b : Backend, b.name = s := by
  constructor
  · intro h
    obtain ⟨b, -, hb⟩ := List.mem_map.mp h
    exact ⟨b, hb⟩
  · rintro ⟨b, rfl⟩
    cases b <;> decide

theorem Backend.resolve_decides (name : String) (span : Span) :
    Decides (name ∈ Backend.names) (fun b => b.name = name) (Backend.resolve name span) := by
  unfold Backend.resolve
  rw [Backend.mem_names_iff]
  cases hb : Backend.ofName? name with
  | some b =>
    have hname := Backend.ofName?_eq_some_iff.mp hb
    exact ⟨⟨b, hname⟩, hname⟩
  | none =>
    rintro ⟨b, hname⟩
    rw [Backend.ofName?_eq_some_iff.mpr hname] at hb
    cases hb

namespace OptionTable

/-! ## 2. The specification -/

def linesFor (blocks : List OptionsBlock) (b : Backend) (name : String) : List OptionLine :=
  (blocks.filter fun block => Backend.ofName? block.backend = some b).flatMap fun block =>
    block.options.filter fun l => l.name = name

def defaultsFor (defaults : List DefaultOption) (b : Backend) (name : String) :
    List DefaultOption :=
  defaults.filter fun d => d.backend = b ∧ d.name = name

/-- What is in force for options blocks on top of defaults. -/
structure InForce (blocks : List OptionsBlock) (defaults : List DefaultOption)
    (t : OptionTable Backend) : Prop where
  get?_eq : ∀ b name, t.get? b name =
    ((linesFor blocks b name).getLast?.map fun l => ⟨l.value, l.valueSpan⟩).or
      ((defaultsFor defaults b name).getLast?.map fun d => { value := d.value })
  blocks_eq : ∀ b, t.blocks.get? b =
    (blocks.find? fun block => Backend.ofName? block.backend = some b).map (·.span)

/-! ## 3. Setting options -/

/-- Setting options one after the other touches nothing but the values. -/
theorem foldl_set_eq {α β : Type} [DecidableEq β] (address : α → β) (name : α → String)
    (value : α → OptionValue) (xs : List α) (t : OptionTable β) :
    xs.foldl (fun t x => t.set (address x) (name x) (value x)) t = { t with
      values := xs.foldl (fun m x => m.insert (address x, name x) (value x)) t.values } := by
  induction xs generalizing t with
  | nil => rfl
  | cons x xs ih =>
    rw [List.foldl_cons, ih]
    rfl

theorem setLines_eq (t : OptionTable Backend) (b : Backend) (lines : List OptionLine) :
    t.setLines b lines = { t with
      values := lines.foldl (fun m l => m.insert (b, l.name) ⟨l.value, l.valueSpan⟩) t.values } :=
  foldl_set_eq _ _ _ lines t

theorem get?_setLines (t : OptionTable Backend) (b b' : Backend) (lines : List OptionLine)
    (name : String) :
    (t.setLines b lines).get? b' name =
      (((lines.filter fun l => b = b' ∧ l.name = name).getLast?).map fun l =>
        ⟨l.value, l.valueSpan⟩).or (t.get? b' name) := by
  rw [setLines_eq]
  show OrderedMap.get? _ (b', name) = _
  rw [OrderedMap.get?_foldl_insert]
  simp only [Prod.mk.injEq]
  rfl

theorem inForce_defaults (defaults : List DefaultOption) :
    InForce [] defaults
      (defaults.foldl (fun t d => t.set d.backend d.name { value := d.value }) {}) := by
  rw [foldl_set_eq]
  refine ⟨fun b name => ?_, fun b => rfl⟩
  show OrderedMap.get? _ (b, name) = _
  rw [OrderedMap.get?_foldl_insert]
  simp only [Prod.mk.injEq]
  exact Option.or_none

/-! ## 4. Resolving options -/

theorem addBlock_eq_ok {t t' : OptionTable Backend} {block : OptionsBlock}
    (h : t.addBlock block = .ok t') :
    ∃ b, Backend.ofName? block.backend = some b ∧
      t' = { t with blocks := if (t.blocks.get? b).isSome then t.blocks
                              else t.blocks.insert b block.span }.setLines b block.options := by
  unfold addBlock Backend.resolve at h
  split at h
  · rename_i b hb
    exact ⟨b, hb, (pure_eq_ok_iff.mp h).symm⟩
  · cases h

theorem InForce.addBlock {blocks : List OptionsBlock} {defaults : List DefaultOption}
    {t t' : OptionTable Backend} {block : OptionsBlock} (ht : InForce blocks defaults t)
    (h : t.addBlock block = .ok t') : InForce (blocks ++ [block]) defaults t' := by
  obtain ⟨b, hb, rfl⟩ := addBlock_eq_ok h
  constructor
  · intro b' name
    have hlines : linesFor (blocks ++ [block]) b' name =
        linesFor blocks b' name ++ block.options.filter fun l => b = b' ∧ l.name = name := by
      by_cases hbb : b = b'
      · simp [linesFor, hb, hbb]
      · simp [linesFor, hb, hbb]
    rw [get?_setLines, hlines, List.getLast?_append, Option.map_or, Option.or_assoc]
    exact congrArg _ (ht.get?_eq b' name)
  · intro b'
    rw [setLines_eq]
    show OrderedMap.get? (if _ then _ else _) b' = _
    rw [List.find?_append, Option.map_or, ← ht.blocks_eq]
    split
    · rename_i hsome
      by_cases hbb : b = b'
      · subst hbb
        obtain ⟨s, hs⟩ := Option.isSome_iff_exists.mp hsome
        rw [hs]
        rfl
      · simp [hb, hbb]
    · rename_i hnone
      rw [OrderedMap.get?_insert]
      by_cases hbb : b = b'
      · subst hbb
        rw [Option.not_isSome_iff_eq_none.mp hnone]
        simp [hb]
      · simp [hb, hbb]

theorem resolve_inForce {blocks : List OptionsBlock} {defaults : List DefaultOption}
    {t : OptionTable Backend} (h : resolve blocks defaults = .ok t) :
    InForce blocks defaults t := by
  refine foldlM_of_ok (P := fun done t => InForce done defaults t) ?_ blocks [] rfl ?_ h
  · intro done block rest t t' _ ht hblock
    exact ht.addBlock hblock
  · exact inForce_defaults defaults

/-! ## 5. Numeric options -/

theorem number_nonneg {β : Type} [DecidableEq β] [Addressee β] {t : OptionTable β} {b : β}
    {name : String} {default n : Int} (hdefault : 0 ≤ default)
    (h : t.number b name default = .ok n) : 0 ≤ n := by
  unfold number at h
  cases hget : t.get? b name with
  | none =>
    rw [hget] at h
    exact Except.ok.inj h ▸ hdefault
  | some v =>
    rw [hget] at h
    dsimp only at h
    cases hread : readInt64? v.value with
    | none =>
      rw [hread] at h
      cases h
    | some k =>
      rw [hread] at h
      dsimp only at h
      by_cases hneg : k < 0
      · rw [if_pos hneg] at h
        cases h
      · rw [if_neg hneg] at h
        exact Except.ok.inj h ▸ Int.not_lt.mp hneg

theorem number_eq_error {t : OptionTable Backend} {b : Backend} {name : String} {n : Int}
    {d : Diagnostic} (h : t.number b name n = .error d) :
    ∃ v, t.get? b name = some v ∧ d.cause = .meaning .invalidOptionValue ∧ d.span = v.span ∧
      d.labels = [] := by
  unfold number at h
  split at h
  · cases h
  · rename_i v hv
    refine ⟨v, hv, ?_⟩
    split at h
    · obtain rfl := Except.error.inj h
      exact ⟨rfl, rfl, rfl⟩
    · split at h
      · obtain rfl := Except.error.inj h
        exact ⟨rfl, rfl, rfl⟩
      · cases h

/-- A value that cannot be used was written on the last line of its option, or else nowhere. -/
theorem InForce.number_eq_error {blocks : List OptionsBlock} {defaults : List DefaultOption}
    {t : OptionTable Backend} (ht : InForce blocks defaults t) {b : Backend} {name : String}
    {n : Int} {d : Diagnostic} (h : t.number b name n = .error d) :
    (∃ l ∈ linesFor blocks b name, d.span = l.valueSpan) ∨
      linesFor blocks b name = [] ∧ defaultsFor defaults b name ≠ [] ∧ d.span = {} := by
  obtain ⟨v, hv, -, hspan, -⟩ := OptionTable.number_eq_error h
  rw [ht.get?_eq] at hv
  cases hlast : (linesFor blocks b name).getLast? with
  | some l =>
    rw [hlast] at hv
    obtain rfl := Option.some.inj hv
    exact .inl ⟨l, List.mem_of_getLast? hlast, hspan⟩
  | none =>
    rw [hlast] at hv
    obtain ⟨o, ho, rfl⟩ := Option.map_eq_some_iff.mp hv
    refine .inr ⟨List.getLast?_eq_none_iff.mp hlast, ?_, hspan⟩
    exact List.ne_nil_of_mem (List.mem_of_getLast? ho)

theorem mem_linesFor {blocks : List OptionsBlock} {b : Backend} {name : String} {l : OptionLine}
    (h : l ∈ linesFor blocks b name) : ∃ block ∈ blocks, l ∈ block.options := by
  obtain ⟨block, hblock, hl⟩ := List.mem_flatMap.mp h
  exact ⟨block, (List.mem_filter.mp hblock).1, (List.mem_filter.mp hl).1⟩

end OptionTable

end Keyplan
