import Keyplan.Proofs.OptionTable

/-!
# Recording — the last value of an option, at the place of its first one

Options that are set one after the other make a table that lists each name once, where it was set
first, with what it was set to last. The options in force are recorded like that: the defaults, and
then the lines of the blocks in source order.
-/

namespace Keyplan.OptionTable

open Outcome

/-! ## 1. Settings -/

section Settings

variable {β : Type} [DecidableEq β]

def setAll (t : OptionTable β) (settings : List (OptionEntry β)) : OptionTable β :=
  settings.foldl (fun t e => t.set e.backend e.name ⟨e.value, e.span⟩) t

/-- The last setting of an option wins; the first one says where it is listed. -/
structure LastWriteWins (settings : List (OptionEntry β)) (t : OptionTable β) : Prop where
  names_eq : ∀ b, (t.entries b).map (·.name) =
    ((settings.filter fun e => e.backend = b).map (·.name)).eraseDups
  nodup : ∀ b, ((t.entries b).map (·.name)).Nodup
  lookup_eq : ∀ b name, t.lookup b name =
    (settings.filter fun e => e.backend = b ∧ e.name = name).getLast?
  isSome_lookup : ∀ b name,
    (t.lookup b name).isSome ↔ ∃ e ∈ settings, e.backend = b ∧ e.name = name
  mem_entries : ∀ b e, e ∈ t.entries b ↔ e.backend = b ∧ t.lookup b e.name = some e

theorem setAll_values (t : OptionTable β) (settings : List (OptionEntry β)) :
    (t.setAll settings).values = settings.foldl
      (fun m e => OrderedMap.insert (e.backend, e.name) ⟨e.value, e.span⟩ m) t.values :=
  congrArg OptionTable.values (foldl_set_eq _ _ _ settings t)

theorem setAll_append_values (t t' : OptionTable β) (first second : List (OptionEntry β))
    (h : t'.values = (t.setAll first).values) :
    (t'.setAll second).values = (t.setAll (first ++ second)).values := by
  rw [setAll_values, h, setAll_values, setAll_values, List.foldl_append]

theorem entries_eq (t : OptionTable β) (b : β) :
    t.entries b =
      (OrderedMap.addressed b t.values).map fun e => ⟨b, e.1, e.2.value, e.2.span⟩ := by
  unfold entries OrderedMap.addressed
  rw [List.map_map]
  apply List.map_congr_left
  intro e he
  have hb : e.1.1 = b := of_decide_eq_true (List.mem_filter.mp he).2
  show (⟨e.1.1, e.1.2, e.2.value, e.2.span⟩ : OptionEntry β) = ⟨b, e.1.2, e.2.value, e.2.span⟩
  rw [hb]

theorem names_eq_keys (t : OptionTable β) (b : β) :
    (t.entries b).map (·.name) = OrderedMap.keys (OrderedMap.addressed b t.values) := by
  rw [entries_eq, List.map_map]
  rfl

theorem lookup_setAll {settings : List (OptionEntry β)} {t : OptionTable β}
    (h : t.values = (setAll {} settings).values) (b : β) (name : String) :
    t.lookup b name = (settings.filter fun e => e.backend = b ∧ e.name = name).getLast? := by
  unfold lookup get?
  rw [h, setAll_values, OrderedMap.get?_foldl_insert]
  simp only [Prod.mk.injEq]
  cases hlast : (settings.filter fun e => e.backend = b ∧ e.name = name).getLast? with
  | none => rfl
  | some e =>
    -- The last setting was filtered out by its address, so the address can be put back.
    obtain ⟨hb, hname⟩ := of_decide_eq_true (List.mem_filter.mp (List.mem_of_getLast? hlast)).2
    subst hb hname
    rfl

theorem lastWriteWins_of_values {settings : List (OptionEntry β)} {t : OptionTable β}
    (h : t.values = (setAll {} settings).values) : LastWriteWins settings t := by
  have hlookup := lookup_setAll h
  rw [setAll_values] at h
  -- What is addressed to `b` is made by the settings for `b` alone.
  have haddressed : ∀ b, OrderedMap.addressed b t.values =
      (settings.filter fun e => e.backend = b).foldl
        (fun m e => OrderedMap.insert e.name ⟨e.value, e.span⟩ m) [] := by
    intro b
    rw [h]
    exact OrderedMap.addressed_foldl_insert _ _ _ settings [] b
  have hnodup : ∀ b, (OrderedMap.keys (OrderedMap.addressed b t.values)).Nodup := by
    intro b
    rw [haddressed]
    exact OrderedMap.nodup_foldl_insert _ _ _ List.nodup_nil
  constructor
  case names_eq =>
    intro b
    rw [names_eq_keys, haddressed, OrderedMap.keys_foldl_insert]
  case nodup =>
    intro b
    rw [names_eq_keys]
    exact hnodup b
  case lookup_eq => exact hlookup
  case isSome_lookup =>
    intro b name
    rw [hlookup]
    constructor
    · intro h
      obtain ⟨e, he⟩ := Option.isSome_iff_exists.mp h
      obtain ⟨hmem, haddress⟩ := List.mem_filter.mp (List.mem_of_getLast? he)
      exact ⟨e, hmem, of_decide_eq_true haddress⟩
    · rintro ⟨e, hmem, haddress⟩
      rw [List.getLast?_isSome]
      exact List.ne_nil_of_mem (List.mem_filter.mpr ⟨hmem, decide_eq_true haddress⟩)
  case mem_entries =>
    intro b e
    rw [entries_eq, lookup, get?, ← OrderedMap.get?_addressed]
    constructor
    · intro he
      obtain ⟨⟨name, v⟩, hmem, rfl⟩ := List.mem_map.mp he
      refine ⟨rfl, ?_⟩
      show Option.map _ (OrderedMap.get? (OrderedMap.addressed b t.values) name) = _
      rw [OrderedMap.get?_of_mem (hnodup b) hmem]
      rfl
    · rintro ⟨-, he⟩
      obtain ⟨v, hv, he⟩ := Option.map_eq_some_iff.mp he
      exact List.mem_map.mpr ⟨(e.name, v), OrderedMap.mem_of_get? hv, he⟩

end Settings

/-! ## 2. Options blocks -/

def blockSettings (block : OptionsBlock) : List (OptionEntry Backend) :=
  match Backend.ofName? block.backend with
  | some b => block.options.map fun l => ⟨b, l.name, l.value, l.valueSpan⟩
  | none => []

/-- The settings that make the options in force, in the order they are made. -/
def settings (blocks : List OptionsBlock) (defaults : List DefaultOption) :
    List (OptionEntry Backend) :=
  (defaults.map fun d => ⟨d.backend, d.name, d.value, {}⟩) ++ blocks.flatMap blockSettings

theorem addBlock_decides (t : OptionTable Backend) (block : OptionsBlock) :
    Decides (block.backend ∈ Backend.names)
      (fun t' => t'.values = (t.setAll (blockSettings block)).values) (t.addBlock block) := by
  unfold addBlock
  apply (Backend.resolve_decides block.backend block.backendSpan).bind
  · exact id
  · intro b hknown hb
    refine ⟨hknown, ?_⟩
    rw [blockSettings, Backend.ofName?_eq_some_iff.mpr hb, setAll_values, List.foldl_map,
      setLines_eq]

theorem resolve_decides (blocks : List OptionsBlock) (defaults : List DefaultOption) :
    Decides (∀ block ∈ blocks, block.backend ∈ Backend.names)
      (fun t => t.values = (setAll {} (settings blocks defaults)).values)
      (resolve blocks defaults) := by
  -- What is set behind the blocks that were read is what their settings make.
  apply Decides.foldlM (P := fun block => block.backend ∈ Backend.names)
    (Q := fun done (t : OptionTable Backend) =>
      t.values = (setAll {} (settings done defaults)).values) ?_ blocks []
  · show OptionTable.values (defaults.foldl _ _) = _
    rw [foldl_set_eq, settings, List.flatMap_nil, List.append_nil, setAll_values, List.foldl_map]
  · intro done block t ht
    apply (addBlock_decides t block).congr Iff.rfl
    intro t' _ ht'
    rw [ht', setAll_append_values {} t _ _ ht]
    simp [settings]

/-- Behind any settings, a table lists each name that was set once, in the order of the first
settings, with the values of the last ones, and finds the same by name. Options blocks can be
resolved exactly when each of them names a backend; then an option has the value of its last line
in the blocks of its backend, or else of its last default, and the whole table is what the defaults
and the lines set. -/
theorem resolve_refines :
    (∀ (β : Type) [DecidableEq β] (settings : List (OptionEntry β)),
      LastWriteWins settings (setAll {} settings)) ∧
    ∀ (blocks : List OptionsBlock) (defaults : List DefaultOption),
      ((∃ d, resolve blocks defaults = .error d) ↔
        ∃ block ∈ blocks, block.backend ∉ Backend.names) ∧
      ∀ t, resolve blocks defaults = .ok t →
        LastWriteWins (settings blocks defaults) t ∧
        ∀ b name, t.lookup b name =
          ((linesFor blocks b name).getLast?.map fun l => ⟨b, name, l.value, l.valueSpan⟩).or
            ((defaultsFor defaults b name).getLast?.map fun d => ⟨b, name, d.value, {}⟩) := by
  constructor
  · intro β _ settings
    exact lastWriteWins_of_values rfl
  · intro blocks defaults
    have hresolve := resolve_decides blocks defaults
    constructor
    · rw [hresolve.fails_iff]
      simp only [Classical.not_forall, exists_prop]
    · intro t ht
      constructor
      · exact lastWriteWins_of_values (hresolve.of_ok ht).2
      · intro b name
        rw [lookup, (resolve_inForce ht).get?_eq, Option.map_or, Option.map_map, Option.map_map]
        rfl

/-- Two blocks for the firmware, around one for diagrams. -/
def splitBlocks : List OptionsBlock :=
  [{ backend := "firmware"
     options := [{ name := "hold_tap_timeout", value := "300" },
       { name := "custom_event", value := "Ev" }] },
   { backend := "diagram", options := [{ name := "custom_event", value := "Dr" }] },
   { backend := "firmware"
     options := [{ name := "hold_tap_timeout", value := "250", valueSpan := ⟨⟨5, 38⟩, ⟨5, 43⟩⟩ }] }]

def lowDefaults : List DefaultOption :=
  [⟨.firmware, "hold_tap_interval", "150"⟩, ⟨.firmware, "hold_tap_timeout", "500"⟩]

theorem resolve_refines_splitBlocks : ∃ t, resolve splitBlocks lowDefaults = .ok t ∧
    (t.entries .firmware).map (·.name) = ["hold_tap_interval", "hold_tap_timeout", "custom_event"] ∧
    t.lookup .firmware "hold_tap_timeout" =
      some ⟨.firmware, "hold_tap_timeout", "250", ⟨⟨5, 38⟩, ⟨5, 43⟩⟩⟩ ∧
    t.lookup .firmware "hold_tap_interval" = some ⟨.firmware, "hold_tap_interval", "150", {}⟩ ∧
    t.lookup .diagram "hold_tap_interval" = none := by
  obtain ⟨hfails, hok⟩ := resolve_refines.2 splitBlocks lowDefaults
  cases ht : resolve splitBlocks lowDefaults with
  | error d =>
    obtain ⟨block, hblock, hunknown⟩ := hfails.mp ⟨d, ht⟩
    have hknown : ∀ block ∈ splitBlocks, block.backend ∈ Backend.names := by decide
    exact absurd (hknown block hblock) hunknown
  | ok t =>
    obtain ⟨hlast, hlookup⟩ := hok t ht
    refine ⟨t, rfl, ?_, ?_, ?_, ?_⟩
    · rw [hlast.names_eq]
      decide
    · rw [hlookup]
      decide
    · rw [hlookup]
      decide
    · rw [hlookup]
      decide

end Keyplan.OptionTable
