import Keyplan.Proofs.OrderedMap
import Keyplan.Suggestion

/-!
# Suggestions — the known names that are close

Sorting the known names says which of them come first, and not which of them are suggested: these
are the ones that reach the threshold, each of them once.
-/

namespace Keyplan.Suggestion

/-- A known name whose similarity to an unknown one reaches the threshold, both of them rounded. -/
def Close (unknown known : String) : Prop :=
  Binary.rounded threshold ≤ Binary.rounded (similarity unknown known)

variable {unknown : String} {known : List String} {least : Rat}

theorem mem_similar {name : String} :
    name ∈ similar unknown known least ↔
      name ∈ known ∧ Binary.rounded least ≤ Binary.rounded (similarity unknown name) := by
  unfold similar
  simp only [List.mem_map, List.mem_mergeSort, List.mem_filter, List.mem_eraseDups,
    decide_eq_true_eq]
  constructor
  · rintro ⟨c, ⟨⟨name, hname, rfl⟩, hscore⟩, rfl⟩
    exact ⟨hname, hscore⟩
  · rintro ⟨hname, hscore⟩
    exact ⟨Candidate.of unknown name, ⟨⟨name, hname, rfl⟩, hscore⟩, rfl⟩

theorem nodup_similar : (similar unknown known least).Nodup := by
  unfold similar
  apply ((List.mergeSort_perm _ Candidate.precedes).map Candidate.name).nodup_iff.mpr
  -- Candidates have the names they are made of.
  have hnames : (known.eraseDups.map (Candidate.of unknown)).map Candidate.name =
      known.eraseDups := by
    rw [List.map_map]
    exact List.map_id _
  have hnodup := OrderedMap.nodup_eraseDups known
  rw [← hnames] at hnodup
  exact hnodup.sublist (List.filter_sublist.map _)

/-- The suggestions for a name that was looked up in vain: the known names that are close, once
each. The known names are those with which the lookup succeeds. -/
structure Answers (known : List String) (found : String → Prop) (name : String)
    (suggestions : List String) : Prop where
  nodup : suggestions.Nodup
  name_not_mem : name ∉ suggestions
  mem_iff : ∀ s, s ∈ suggestions ↔ s ∈ known ∧ Close name s
  known_iff : ∀ s, s ∈ known ↔ found s
  found : ∀ s ∈ suggestions, found s

theorem didYouMean_answers {found : String → Prop} (hknown : ∀ s, s ∈ known ↔ found s)
    {name : String} (hname : ¬ found name) : Answers known found name (didYouMean name known) := by
  have hmem : ∀ s, s ∈ didYouMean name known ↔ s ∈ known ∧ Close name s := fun _ => mem_similar
  have hfound : ∀ s ∈ didYouMean name known, found s :=
    fun s hs => (hknown s).mp ((hmem s).mp hs).1
  exact ⟨nodup_similar, fun hself => hname (hfound name hself), hmem, hknown, hfound⟩

end Keyplan.Suggestion
