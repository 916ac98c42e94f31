import LinkDiscovery.Proofs.Double.Counts
import LinkDiscovery.Proofs.Measure.EditDistance
import LinkDiscovery.Proofs.Measure.Scores
/-!
What the standard measures have in common. None of them exceeds one, so that the early end of the search
for the most similar members of two sets misses nothing, and each of them is the same in both
directions. A score therefore grows with the values of the two entities, and it does not matter which
of them comes first.
-/

namespace LinkDiscovery

open Double (IsUnsigned isUnsigned_zero)
open Score

namespace Score

variable {a b c : Float}

/-- What is no number makes nothing larger. -/
theorem le_larger_or (ha : a.isNaN = false) : c ≤ larger a b ↔ c ≤ a ∨ c ≤ b := by
  by_cases hb : b.isNaN = false
  · exact le_larger_iff ha hb
  · have hlt : ¬ a < b := fun h => hb (lt_iff.mp h).2.1
    have hle : ¬ c ≤ b := fun h => hb (number_of_le_right h)
    simp only [larger, hlt, ha, decide_false, Bool.or_self, Bool.false_eq_true, if_false, hle, or_false]

/-- Two scores without a minus sign are equal if they reach the same numbers. -/
theorem eq_of_le_iff (ha : IsUnsigned a) (hb : IsUnsigned b) (h : ∀ c, c ≤ a ↔ c ≤ b) : a = b := by
  have hna := number_of_le_right ha.nonneg
  have hnb := number_of_le_right hb.nonneg
  have hab := (h a).mp (le_self hna)
  have hba := (h b).mpr (le_self hnb)
  exact ha.eq_of_not_lt hb ((not_lt hna hnb).mpr hba) ((not_lt hnb hna).mpr hab)

theorem not_one_lt (h : a.isNaN = true ∨ a ≤ 1) : ¬ 1 < a := by
  rcases h with h | h
  · intro hlt
    rw [(lt_iff.mp hlt).2.1] at h
    cases h
  · exact (not_lt (number_of_le_right h) (number_of_le_left h)).mpr h

end Score

namespace Measure

/-- No similarity is above one. -/
def Bounded (m : Measure) : Prop :=
  ∀ a b, ¬ 1 < m.similarity a b

/-- It does not matter which text comes first. -/
def Symmetric (m : Measure) : Prop :=
  ∀ a b, m.similarity a b = m.similarity b a

variable {m : Measure} {c : Float} {as bs : Std.ExtTreeSet String}

/-- The search for the best pair finds all that there is to find, although it may end early. -/
theorem le_bestOf_iff (hm : m.Bounded) {best : Float} (hbest : best.isNaN = false)
    (pairs : List (String × String)) :
    c ≤ m.similarity.bestOf best pairs ↔ c ≤ best ∨ ∃ p ∈ pairs, c ≤ m.similarity p.1 p.2 := by
  induction pairs generalizing best with
  | nil => simp [Similarity.bestOf]
  | cons pair pairs ih =>
      obtain ⟨a, b⟩ := pair
      have hfirst {c : Float} := le_larger_or (b := m.similarity a b) (c := c) hbest
      simp only [Similarity.bestOf]
      split
      · rename_i hone
        constructor
        · intro h
          exact (hfirst.mp h).imp_right fun h => ⟨(a, b), List.mem_cons_self, h⟩
        · rintro (h | ⟨p, -, h⟩)
          · exact hfirst.mpr (.inl h)
          · -- whatever the rest holds is at most one
            have hle := (not_lt (number_of_le_left hone) (number_of_le_right h)).mp (hm p.1 p.2)
            exact le_trans h (le_trans hle hone)
      · have hnumber := number_of_le_right (hfirst.mpr (.inl (le_self hbest)))
        rw [ih hnumber, hfirst]
        simp [or_assoc]

theorem le_ofSets_iff (hm : m.Bounded) :
    c ≤ m.similarity.ofSets as bs ↔ c ≤ 0 ∨ ∃ a ∈ as, ∃ b ∈ bs, c ≤ m.similarity a b := by
  rw [Similarity.ofSets, le_bestOf_iff hm (number_of_le_left zero_nonneg)]
  simp

/-- The most similar members of larger sets are at least as similar. -/
theorem ofSets_le (hm : m.Bounded) {as' bs' : Std.ExtTreeSet String} (has : ∀ a ∈ as, a ∈ as')
    (hbs : ∀ b ∈ bs, b ∈ bs') : m.similarity.ofSets as bs ≤ m.similarity.ofSets as' bs' := by
  have hself := le_self (number_of_le_right (m.similarity.ofSets_unsigned as bs).nonneg)
  refine (le_ofSets_iff hm).mpr (((le_ofSets_iff hm).mp hself).imp_right ?_)
  rintro ⟨a, ha, b, hb, h⟩
  exact ⟨a, has a ha, b, hbs b hb, h⟩

/-- Sets are as similar in one direction as in the other if the same numbers bound the similarities of
their members in both. -/
theorem ofSets_swap (hbounded : m.Bounded)
    (h : ∀ a b c, c ≤ m.similarity a b ↔ c ≤ m.similarity b a) :
    m.similarity.ofSets as bs = m.similarity.ofSets bs as := by
  refine eq_of_le_iff (m.similarity.ofSets_unsigned as bs) (m.similarity.ofSets_unsigned bs as)
    fun c => ?_
  rw [le_ofSets_iff hbounded, le_ofSets_iff hbounded]
  refine or_congr_right ⟨?_, ?_⟩
  · rintro ⟨a, ha, b, hb, hle⟩
    exact ⟨b, hb, a, ha, (h a b c).mp hle⟩
  · rintro ⟨b, hb, a, ha, hle⟩
    exact ⟨a, ha, b, hb, (h b a c).mp hle⟩

theorem ofSets_comm (hbounded : m.Bounded) (hsymmetric : m.Symmetric) :
    m.similarity.ofSets as bs = m.similarity.ofSets bs as :=
  ofSets_swap hbounded fun a b c => by rw [hsymmetric a b]

/-! Scores of entities. A property that is not known counts as one without values. -/

theorem score_eq (hm : m.TakesBestPair) (p q : String) (a b : Entity) :
    m.score p q a b = m.similarity.ofSets (a.values p) (b.values q) := by
  have hempty : (∅ : Std.ExtTreeSet String).toList = [] := rfl
  simp only [score, Entity.values, Std.ExtTreeMap.getD_eq_getD_getElem?]
  cases a.properties[p]? with
  | none => simp [Similarity.ofSets, hempty, Similarity.bestOf]
  | some as =>
      cases b.properties[q]? with
      | none =>
          have hnone : (as.toList.flatMap fun _ => ([] : List (String × String))) = [] :=
            List.flatMap_eq_nil_iff.mpr fun _ _ => rfl
          simp [Similarity.ofSets, hempty, hnone, Similarity.bestOf]
      | some bs => exact hm as bs

/-- A score does not shrink when the entities get more values. -/
theorem score_le (hbest : m.TakesBestPair) (hm : m.Bounded) {p q : String} {a a' b b' : Entity}
    (ha : ∀ v ∈ a.values p, v ∈ a'.values p) (hb : ∀ v ∈ b.values q, v ∈ b'.values q) :
    m.score p q a b ≤ m.score p q a' b' := by
  rw [score_eq hbest, score_eq hbest]
  exact ofSets_le hm ha hb

theorem score_comm (hbest : m.TakesBestPair) (hbounded : m.Bounded) (hsymmetric : m.Symmetric)
    (p q : String) (a b : Entity) : m.score p q a b = m.score q p b a := by
  rw [score_eq hbest, score_eq hbest, ofSets_comm hbounded hsymmetric]

/-! The standard measures. -/

theorem nodup_eraseDups {α : Type} [BEq α] [LawfulBEq α] (as : List α) : as.eraseDups.Nodup := by
  induction h : as.length using Nat.strong_induction_on generalizing as with
  | _ n ih =>
      cases as with
      | nil => simp
      | cons a as =>
          rw [List.eraseDups_cons, List.nodup_cons]
          refine ⟨by simp, ih _ ?_ _ rfl⟩
          rw [← h, List.length_cons]
          exact Nat.lt_succ_of_le (List.length_filter_le _ _)

theorem shared_le {α : Type} [BEq α] (xs ys : List α) : shared xs ys ≤ xs.length :=
  List.length_filter_le _ _

theorem shared_comm {α : Type} [BEq α] [LawfulBEq α] {xs ys : List α} (hxs : xs.Nodup)
    (hys : ys.Nodup) : shared xs ys = shared ys xs := by
  refine ((List.perm_ext_iff_of_nodup (hxs.filter _) (hys.filter _)).mpr fun x => ?_).length_eq
  simp [and_comm]

theorem wordSet_nodup (text : String) : (wordSet text).Nodup :=
  nodup_eraseDups _

theorem trigramSet_nodup (text : String) : (trigramSet text).Nodup := by
  unfold trigramSet
  split
  · exact List.nodup_nil
  · exact nodup_eraseDups _

theorem shared_le_right {α : Type} [BEq α] [LawfulBEq α] {xs ys : List α} (hxs : xs.Nodup)
    (hys : ys.Nodup) : shared xs ys ≤ ys.length := by
  rw [shared_comm hxs hys]
  exact shared_le ys xs

/-- The number of words in either text. -/
def eitherWords (a b : String) : ℕ :=
  (wordSet a).length + (wordSet b).length - shared (wordSet a) (wordSet b)

/-- The numbers of trigrams of both texts together. -/
def bothTrigrams (a b : String) : ℕ :=
  (trigramSet a).length + (trigramSet b).length

/-- The number of characters of the longer text. -/
def longerLength (a b : String) : ℕ :=
  max a.length b.length

theorem jaccard_eq_share (a b : String) :
    jaccard.similarity a b = Double.share (shared (wordSet a) (wordSet b)) (eitherWords a b) :=
  rfl

theorem shared_le_eitherWords (a b : String) :
    shared (wordSet a) (wordSet b) ≤ eitherWords a b := by
  have hleft := shared_le (wordSet a) (wordSet b)
  have hright := shared_le_right (wordSet_nodup a) (wordSet_nodup b)
  rw [eitherWords]
  omega

theorem trigrams_eq_share (a b : String) :
    trigrams.similarity a b =
      Double.share (2 * shared (trigramSet a) (trigramSet b)) (bothTrigrams a b) := by
  rw [Double.share, ← Double.two_mul_toFloat]
  rfl

theorem two_mul_shared_le_bothTrigrams (a b : String) :
    2 * shared (trigramSet a) (trigramSet b) ≤ bothTrigrams a b := by
  have hleft := shared_le (trigramSet a) (trigramSet b)
  have hright := shared_le_right (trigramSet_nodup a) (trigramSet_nodup b)
  rw [bothTrigrams]
  omega

/-- Two empty texts are as similar as texts that need no edits. -/
theorem levenshtein_eq_share (a b : String) :
    levenshtein.similarity a b =
      1 - Double.share (editDistance a.toList b.toList) (longerLength a b) := by
  have hzero : (1 : Float) - 0 = 1 := by decide
  by_cases h : longerLength a b = 0
  · rw [Double.share, if_pos h, hzero]
    exact if_pos h
  · rw [Double.share, if_neg h]
    exact if_neg h

theorem editDistance_le_longerLength (a b : String) :
    editDistance a.toList b.toList ≤ longerLength a b := by
  have hle := editDistance_le a.toList b.toList
  rwa [String.length_toList, String.length_toList] at hle

theorem exactMatch_bounded : exactMatch.Bounded := by
  intro a b
  simp only [exactMatch]
  split <;> decide

theorem exactMatch_symmetric : exactMatch.Symmetric := by
  intro a b
  simp only [exactMatch, beq_iff_eq, eq_comm (a := a)]

theorem jaccard_bounded : jaccard.Bounded := by
  intro a b
  rw [jaccard_eq_share]
  exact not_one_lt ((Double.share_number_bounds (shared_le_eitherWords a b)).imp_right And.right)

theorem jaccard_symmetric : jaccard.Symmetric := by
  intro a b
  simp only [jaccard, shared_comm (wordSet_nodup a) (wordSet_nodup b),
    Nat.add_comm (wordSet a).length]

theorem trigrams_bounded : trigrams.Bounded := by
  intro a b
  rw [trigrams_eq_share]
  exact not_one_lt
    ((Double.share_number_bounds (two_mul_shared_le_bothTrigrams a b)).imp_right And.right)

theorem trigrams_symmetric : trigrams.Symmetric := by
  intro a b
  simp only [trigrams, shared_comm (trigramSet_nodup a) (trigramSet_nodup b),
    Nat.add_comm (trigramSet a).length]

theorem levenshtein_bounded : levenshtein.Bounded := by
  intro a b
  rw [levenshtein_eq_share]
  exact not_one_lt
    (Double.one_sub_le_one (Double.share_number_bounds (editDistance_le_longerLength a b)))

theorem levenshtein_symmetric : levenshtein.Symmetric := by
  intro a b
  simp only [levenshtein, editDistance_comm a.toList, max_comm a.length]

end Measure

namespace Registry

variable {name : String} {m : Measure}

theorem standard_bounded (h : standard.measure? name = some m) : m.Bounded :=
  standard_measure h Measure.exactMatch_bounded Measure.jaccard_bounded Measure.levenshtein_bounded
    Measure.trigrams_bounded

theorem standard_symmetric (h : standard.measure? name = some m) : m.Symmetric :=
  standard_measure h Measure.exactMatch_symmetric Measure.jaccard_symmetric
    Measure.levenshtein_symmetric Measure.trigrams_symmetric

end Registry

end LinkDiscovery
