import Mathlib.Algebra.Order.Ring.Unbundled.Rat
import Mathlib.Data.Prod.Lex
import Mathlib.Data.String.Basic
import Keyplan.Proofs.Suggestion

/-!
# Ranking — the order of suggestions is the order of the names

How a known name compares to an unknown one leaves no ties: names that are equally similar and
equally distant are told apart by their letters. So there is one ranking of the names that reach a
threshold, whatever the order they come in and however often they are repeated.
-/

namespace Keyplan.Suggestion

/-! ## 1. A strict total order -/

namespace Candidate

/-- `a` is ranked before `b`: it is more similar, or as similar and at a smaller distance, or both
as similar and as distant and its name comes first. -/
def RankedBefore (a b : Candidate) : Prop :=
  b.score < a.score ∨
    a.score = b.score ∧ (a.distance < b.distance ∨ a.distance = b.distance ∧ a.name < b.name)

/-- What a candidate is ranked by, in an order in which less is better. -/
def rank (c : Candidate) : Ratᵒᵈ ×ₗ (Nat ×ₗ String) :=
  toLex (OrderDual.toDual c.score, toLex (c.distance, c.name))

variable {a b c : Candidate}

theorem rank_injective (h : rank a = rank b) : a = b := by
  obtain ⟨name, score, distance⟩ := a
  obtain ⟨hscore, hrest⟩ := Prod.mk.inj (toLex.injective h)
  obtain ⟨rfl, rfl⟩ := Prod.mk.inj (toLex.injective hrest)
  obtain rfl := OrderDual.toDual.injective hscore
  rfl

theorem rankedBefore_iff : a.RankedBefore b ↔ rank a < rank b := by
  simp only [RankedBefore, rank, Prod.Lex.toLex_lt_toLex, OrderDual.toDual_lt_toDual,
    EmbeddingLike.apply_eq_iff_eq]

theorem RankedBefore.irrefl (a : Candidate) : ¬ a.RankedBefore a :=
  fun h => lt_irrefl _ (rankedBefore_iff.mp h)

theorem RankedBefore.trans (hab : a.RankedBefore b) (hbc : b.RankedBefore c) : a.RankedBefore c :=
  rankedBefore_iff.mpr ((rankedBefore_iff.mp hab).trans (rankedBefore_iff.mp hbc))

theorem RankedBefore.trichotomous (hab : ¬ a.RankedBefore b) (hba : ¬ b.RankedBefore a) :
    a = b := by
  rw [rankedBefore_iff, not_lt] at hab hba
  exact rank_injective (le_antisymm hba hab)

/-- Candidates are sorted by their ranks. -/
theorem precedes_iff : a.precedes b ↔ rank a ≤ rank b := by
  rw [le_iff_lt_or_eq, ← rankedBefore_iff]
  unfold precedes RankedBefore
  by_cases hscore : a.score = b.score
  · by_cases hdistance : a.distance = b.distance
    · rw [if_pos hscore, if_pos hdistance]
      simp [hscore, hdistance, rank, le_iff_lt_or_eq]
    · rw [if_pos hscore, if_neg hdistance]
      simp [hscore, hdistance, rank]
  · rw [if_neg hscore]
    simp [hscore, rank]

end Candidate

/-- Of two known names, `a` is ranked before `b` for an unknown one. -/
def Outranks (unknown a b : String) : Prop :=
  (Candidate.of unknown a).RankedBefore (Candidate.of unknown b)

theorem isStrictTotalOrder_outranks (unknown : String) :
    IsStrictTotalOrder String (Outranks unknown) where
  irrefl _ := Candidate.RankedBefore.irrefl _
  trans _ _ _ hab hbc := hab.trans hbc
  trichotomous _ _ hab hba :=
    -- Candidates keep their names.
    congrArg Candidate.name (Candidate.RankedBefore.trichotomous hab hba)

/-! ## 2. One ranking -/

/-- A list of the known names that reach a threshold, each of them once, in the order of their
ranks. -/
structure IsRanking (unknown : String) (known : List String) (least : Rat) (names : List String) :
    Prop where
  nodup : names.Nodup
  mem_iff : ∀ s, s ∈ names ↔
    s ∈ known ∧ Binary.rounded least ≤ Binary.rounded (similarity unknown s)
  sorted : names.Pairwise (Outranks unknown)

variable {unknown : String} {known known' names names' : List String} {least : Rat}

/-- Nothing but the set of the known names decides which list is their ranking. -/
theorem IsRanking.unique (h : IsRanking unknown known least names)
    (h' : IsRanking unknown known' least names') (hknown : ∀ s, s ∈ known' ↔ s ∈ known) :
    names' = names := by
  have horder := isStrictTotalOrder_outranks unknown
  have hperm : names'.Perm names := by
    refine (List.perm_ext_iff_of_nodup h'.nodup h.nodup).mpr fun s => ?_
    rw [h'.mem_iff, h.mem_iff, hknown]
  refine List.Perm.eq_of_pairwise (fun a b _ _ hab hba => ?_) h'.sorted h.sorted hperm
  exact absurd (horder.trans _ _ _ hab hba) (horder.irrefl a)

/-- Sorting candidates whose names are distinct ranks their names. -/
theorem pairwise_outranks_mergeSort {candidates : List Candidate}
    (hof : ∀ c ∈ candidates, Candidate.of unknown c.name = c)
    (hnodup : ((candidates.mergeSort Candidate.precedes).map Candidate.name).Nodup) :
    ((candidates.mergeSort Candidate.precedes).map Candidate.name).Pairwise (Outranks unknown) := by
  have hsorted : (candidates.mergeSort Candidate.precedes).Pairwise fun a b => a.precedes b := by
    apply List.pairwise_mergeSort
    · intro a b c hab hbc
      rw [Candidate.precedes_iff] at hab hbc ⊢
      exact hab.trans hbc
    · intro a b
      rw [Bool.or_eq_true, Candidate.precedes_iff, Candidate.precedes_iff]
      exact le_total _ _
  rw [List.Nodup, List.pairwise_map] at hnodup
  rw [List.pairwise_map]
  refine (hsorted.and hnodup).imp_of_mem ?_
  rintro a b ha hb ⟨hle, hne⟩
  rw [Outranks, hof a (List.mem_mergeSort.mp ha), hof b (List.mem_mergeSort.mp hb),
    Candidate.rankedBefore_iff]
  refine lt_of_le_of_ne (Candidate.precedes_iff.mp hle) fun heq => hne ?_
  rw [Candidate.rank_injective heq]

theorem isRanking_similar (unknown : String) (known : List String) (least : Rat) :
    IsRanking unknown known least (similar unknown known least) := by
  refine ⟨nodup_similar, fun _ => mem_similar, ?_⟩
  refine pairwise_outranks_mergeSort (fun c hc => ?_) nodup_similar
  obtain ⟨name, -, rfl⟩ := List.mem_map.mp (List.mem_of_mem_filter hc)
  rfl

/-- The suggestions for an unknown name are the one ranking of the known names that reach the
threshold: another list of the same names, in any order and with any repetitions, gives the same
suggestions. -/
theorem similar_ranks (unknown : String) (known : List String) (least : Rat) :
    IsStrictTotalOrder String (Outranks unknown) ∧
      IsRanking unknown known least (similar unknown known least) ∧
      ∀ known', (∀ s, s ∈ known' ↔ s ∈ known) →
        similar unknown known' least = similar unknown known least := by
  have hranking := isRanking_similar unknown known least
  refine ⟨isStrictTotalOrder_outranks unknown, hranking, fun known' hknown => ?_⟩
  exact hranking.unique (isRanking_similar unknown known' least) hknown

/-- Two names that are equally similar and equally distant, and a name that is repeated. -/
theorem similar_ranks_repeatedNames :
    similar "ab" ["abd", "xyz", "abc", "abd"] threshold =
        similar "ab" ["abc", "abd", "xyz"] threshold ∧
      similar "ab" ["abc", "abd", "xyz"] threshold = ["abc", "abd"] := by
  obtain ⟨-, hranking, hsame⟩ := similar_ranks "ab" ["abc", "abd", "xyz"] threshold
  refine ⟨hsame ["abd", "xyz", "abc", "abd"] ?_, ?_⟩
  · intro s
    simp only [List.mem_cons, List.not_mem_nil, or_false]
    tauto
  · have hexpected : IsRanking "ab" ["abc", "abd", "xyz"] threshold ["abc", "abd"] := by
      refine ⟨by decide, fun s => ?_, List.pairwise_pair.mpr ?_⟩
      · have hc : Close "ab" "abc" := by
          unfold Close
          decide +kernel
        have hd : Close "ab" "abd" := by
          unfold Close
          decide +kernel
        have hz : ¬ Close "ab" "xyz" := by
          unfold Close
          decide +kernel
        unfold Close at hc hd hz
        simp only [List.mem_cons, List.not_mem_nil, or_false]
        constructor
        · rintro (rfl | rfl)
          · exact ⟨.inl rfl, hc⟩
          · exact ⟨.inr (.inl rfl), hd⟩
        · rintro ⟨rfl | rfl | rfl, hclose⟩
          · exact .inl rfl
          · exact .inr rfl
          · exact absurd hclose hz
      · unfold Outranks Candidate.RankedBefore
        decide +kernel
    exact hexpected.unique hranking fun _ => Iff.rfl

end Keyplan.Suggestion
