import LinkDiscovery.Proofs.Double.Sign
import LinkDiscovery.Proofs.Measure.Names
/-!
Scores are numbers without a minus sign for all measures that compare sets by their most similar
members: the search for these starts at zero and passes over what is no number, and the coefficients of
sums are positive and finite. Of two such numbers neither comes first in the larger or the smaller one.
-/

namespace LinkDiscovery

open Double (IsUnsigned isUnsigned_zero isUnsigned_of_pos)
open Score

namespace Score

variable {a b : Float}

theorem zero_nonneg : (0 : Float) ≤ 0 :=
  le_self rfl

/-- Numbers from zero upwards reach a threshold that is raised to zero if they reach it as it is. -/
theorem larger_zero_le_iff (ha : a.isNaN = false) (hb : 0 ≤ b) : larger a 0 ≤ b ↔ a ≤ b := by
  rw [larger_le_iff ha (number_of_le_left hb), and_iff_left hb]

theorem larger_unsigned (ha : IsUnsigned a) : IsUnsigned (larger a b) := by
  unfold larger
  split
  · rename_i h
    rw [number_of_le_right ha.nonneg, Bool.or_false, decide_eq_true_eq] at h
    obtain ⟨-, hb, -⟩ := lt_iff.mp h
    refine isUnsigned_of_pos ((not_le hb (number_of_le_left zero_nonneg)).mp fun hle => ?_)
    exact not_le_of_lt h (le_trans hle ha.nonneg)
  · exact ha

theorem smaller_unsigned (ha : IsUnsigned a) (hb : IsUnsigned b) : IsUnsigned (smaller a b) := by
  unfold smaller
  split
  · exact hb
  · exact ha

theorem larger_comm (ha : IsUnsigned a) (hb : IsUnsigned b) : larger a b = larger b a := by
  have hna := number_of_le_right ha.nonneg
  have hnb := number_of_le_right hb.nonneg
  have heq := ha.eq_of_not_lt hb
  simp only [larger, hna, hnb, Bool.or_false, decide_eq_true_eq]
  by_cases hab : a < b <;> by_cases hba : b < a
  · exact absurd (le_of_lt hab) (not_le_of_lt hba)
  all_goals simp_all

theorem smaller_comm (ha : IsUnsigned a) (hb : IsUnsigned b) : smaller a b = smaller b a := by
  have hna := number_of_le_right ha.nonneg
  have hnb := number_of_le_right hb.nonneg
  have heq := ha.eq_of_not_lt hb
  simp only [smaller, hna, hnb, Bool.or_false, decide_eq_true_eq]
  by_cases hab : a < b <;> by_cases hba : b < a
  · exact absurd (le_of_lt hab) (not_le_of_lt hba)
  all_goals simp_all

end Score

namespace Similarity

theorem bestOf_unsigned (similarity : Similarity) (pairs : List (String × String)) {best : Float}
    (h : IsUnsigned best) : IsUnsigned (similarity.bestOf best pairs) := by
  induction pairs generalizing best with
  | nil => exact h
  | cons pair pairs ih =>
      obtain ⟨a, b⟩ := pair
      simp only [bestOf]
      split
      · exact larger_unsigned h
      · exact ih (larger_unsigned h)

theorem ofSets_unsigned (similarity : Similarity) (as bs : Std.ExtTreeSet String) :
    IsUnsigned (similarity.ofSets as bs) :=
  similarity.bestOf_unsigned _ isUnsigned_zero

end Similarity

namespace Measure

/-- Two sets are compared by their most similar members, as they are unless a measure says otherwise. -/
def TakesBestPair (m : Measure) : Prop :=
  ∀ as bs, m.setSimilarity as bs = m.similarity.ofSets as bs

/-- A measure that says nothing of sets compares them so. -/
theorem takesBestPair_mk (name : String) (similarity : Similarity) :
    (Measure.mk name similarity similarity.ofSets).TakesBestPair :=
  fun _ _ => rfl

variable {m : Measure}

theorem score_unsigned (hm : m.TakesBestPair) (p q : String) (s t : Entity) :
    IsUnsigned (m.score p q s t) := by
  unfold score
  split
  · rw [hm]
    exact m.similarity.ofSets_unsigned _ _
  · exact isUnsigned_zero

theorem score_nonneg (hm : m.TakesBestPair) (p q : String) (s t : Entity) : 0 ≤ m.score p q s t :=
  (score_unsigned hm p q s t).nonneg

end Measure

namespace Registry

/-- All measures of a registry compare sets by their most similar members. -/
def TakesBestPairs (r : Registry) : Prop :=
  ∀ name m, r.measure? name = some m → m.TakesBestPair

theorem standard_takesBestPairs : standard.TakesBestPairs := fun _ _ h =>
  standard_measure h (Measure.takesBestPair_mk _ _) (Measure.takesBestPair_mk _ _)
    (Measure.takesBestPair_mk _ _) (Measure.takesBestPair_mk _ _)

end Registry

namespace Scorer

/-- The coefficients of a sum without a fault are finite and above zero. -/
theorem coefficients_pos {c : Compound} {text : String} (hfault : c.fault? text = none)
    (hc : c.keyword = .add) :
    (c.left.coefficient.isFinite = true ∧ 0 < c.left.coefficient) ∧
      c.right.coefficient.isFinite = true ∧ 0 < c.right.coefficient := by
  have hzero : (0 : Float).isNaN = false := number_of_le_left zero_nonneg
  obtain ⟨⟨hlf, hlp⟩, hrf, hrp⟩ := (Compound.fault?_eq_none.mp hfault).2 hc
  exact ⟨⟨hlf, (not_le (number_of_finite hlf) hzero).mp hlp⟩, hrf,
    (not_le (number_of_finite hrf) hzero).mp hrp⟩

theorem combine_unsigned {c : Compound} {text : String} (hfault : c.fault? text = none)
    {s₁ s₂ : Float} (h₁ : IsUnsigned s₁) (h₂ : IsUnsigned s₂) : IsUnsigned (combine c s₁ s₂) := by
  have h₀ := isUnsigned_zero
  have hs := smaller_unsigned h₁ h₂
  have hl := larger_unsigned (b := s₂) h₁
  unfold combine
  cases hk : c.keyword with
  | and | or | xor | minus => grind
  | min => exact hs
  | max => exact hl
  | add =>
      obtain ⟨⟨hlf, hlp⟩, hrf, hrp⟩ := coefficients_pos hfault hk
      exact (h₁.mul hlp hlf).add (h₂.mul hrp hrf)

variable {r : Registry} {sv tv text : String} {o : Outline} {scorer : Scorer}

theorem score_unsigned (hr : r.TakesBestPairs) (h : r.resolve sv tv text o = .ok scorer)
    (a b : Entity) : IsUnsigned (scorer.score a b) := by
  induction o generalizing text scorer with
  | leaf spelling call =>
      obtain ⟨first, second, m, -, hm, rfl⟩ := Registry.resolve_leaf.mp h
      exact Measure.score_unsigned (hr _ m hm) _ _ a b
  | node c left right ihl ihr =>
      obtain ⟨hfault, x, y, hx, hy, rfl⟩ := Registry.resolve_node.mp h
      exact combine_unsigned hfault (ihl hx) (ihr hy)

theorem score_nonneg (hr : r.TakesBestPairs) (h : r.resolve sv tv text o = .ok scorer)
    (a b : Entity) : 0 ≤ scorer.score a b :=
  (score_unsigned hr h a b).nonneg

end Scorer

end LinkDiscovery
