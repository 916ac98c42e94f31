import LinkDiscovery.Proofs.Double.Equality
import LinkDiscovery.Proofs.Measure.Similarity
/-!
The similarity of two sets of texts as a maximum, for measures that say nothing else of sets. The search
for the most similar members ends at the first pair that scores one. For a measure between zero and one
nothing is missed by this: the search comes to what a look at all pairs comes to, in whatever order the
pairs stand.
-/

namespace LinkDiscovery

open Score

/-- The largest score of some pairs, or `best` if that is larger; all pairs are looked at. -/
def Similarity.bestOfAll (similarity : Similarity) (best : Float) (pairs : List (String × String)) :
    Float :=
  pairs.foldl (fun best pair => larger best (similarity pair.1 pair.2)) best

namespace Measure

/-- All similarities are numbers between zero and one. -/
def InUnitInterval (m : Measure) : Prop :=
  ∀ a b, 0 ≤ m.similarity a b ∧ m.similarity a b ≤ 1

/-- The pairs are those of the members of two sets, in any order. -/
def PairsOf (as bs : Std.ExtTreeSet String) (pairs : List (String × String)) : Prop :=
  ∀ a b, (a, b) ∈ pairs ↔ a ∈ as ∧ b ∈ bs

variable {m : Measure} {as bs : Std.ExtTreeSet String} {pairs : List (String × String)}

theorem InUnitInterval.bounded (hm : m.InUnitInterval) : m.Bounded :=
  fun a b => not_one_lt (.inr (hm a b).2)

/-! The early end. -/

/-- A score that reaches one stays the largest. -/
theorem bestOfAll_of_one_le (hm : m.Bounded) {best : Float} (hbest : 1 ≤ best)
    (pairs : List (String × String)) : m.similarity.bestOfAll best pairs = best := by
  induction pairs with
  | nil => rfl
  | cons pair pairs ih =>
      have hnumber := number_of_le_right hbest
      have hlt : ¬ best < m.similarity pair.1 pair.2 :=
        fun hlt => hm pair.1 pair.2 (lt_of_le_of_lt hbest hlt)
      have hkept : larger best (m.similarity pair.1 pair.2) = best := by
        simp only [larger, hlt, hnumber, decide_false, Bool.or_self, Bool.false_eq_true, if_false]
      rw [Similarity.bestOfAll, List.foldl_cons, hkept]
      exact ih

/-- Ending the search early leaves what a look at all pairs finds. -/
theorem bestOf_eq_bestOfAll (hm : m.Bounded) (best : Float) (pairs : List (String × String)) :
    m.similarity.bestOf best pairs = m.similarity.bestOfAll best pairs := by
  induction pairs generalizing best with
  | nil => rfl
  | cons pair pairs ih =>
      obtain ⟨a, b⟩ := pair
      simp only [Similarity.bestOf]
      split
      · rename_i hone
        exact (bestOfAll_of_one_le hm hone pairs).symm
      · exact ih _

/-- The order in which the pairs are looked at makes no difference. -/
theorem bestOf_eq_ofSets (hm : m.Bounded) (hpairs : PairsOf as bs pairs) :
    m.similarity.bestOf 0 pairs = m.similarity.ofSets as bs := by
  refine eq_of_le_iff (m.similarity.bestOf_unsigned pairs Double.isUnsigned_zero)
    (m.similarity.ofSets_unsigned as bs) fun c => ?_
  rw [le_bestOf_iff hm (number_of_le_left zero_nonneg), le_ofSets_iff hm]
  refine or_congr_right ⟨?_, ?_⟩
  · rintro ⟨⟨a, b⟩, hmem, hc⟩
    obtain ⟨ha, hb⟩ := (hpairs a b).mp hmem
    exact ⟨a, ha, b, hb, hc⟩
  · rintro ⟨a, ha, b, hb, hc⟩
    exact ⟨(a, b), (hpairs a b).mpr ⟨ha, hb⟩, hc⟩

/-! The maximum. -/

theorem similarity_le_ofSets (hm : m.InUnitInterval) {a b : String} (ha : a ∈ as) (hb : b ∈ bs) :
    m.similarity a b ≤ m.similarity.ofSets as bs :=
  (le_ofSets_iff hm.bounded).mpr
    (.inr ⟨a, ha, b, hb, le_self (number_of_le_right (hm a b).1)⟩)

/-- A set without members is similar to nothing. -/
theorem ofSets_empty (m : Measure) (h : as = ∅ ∨ bs = ∅) : m.similarity.ofSets as bs = 0 := by
  have hnone : (as.toList.flatMap fun a => bs.toList.map fun b => (a, b)) = [] := by
    refine List.eq_nil_iff_forall_not_mem.mpr fun ⟨a, b⟩ hpair => ?_
    have hmem : a ∈ as ∧ b ∈ bs := by simpa using hpair
    rcases h with rfl | rfl
    · exact Std.ExtTreeSet.not_mem_empty hmem.1
    · exact Std.ExtTreeSet.not_mem_empty hmem.2
  rw [Similarity.ofSets, hnone, Similarity.bestOf]

theorem exists_mem_of_ne_empty (h : as ≠ ∅) : ∃ a, a ∈ as :=
  not_forall_not.mp (mt Std.ExtTreeSet.eq_empty_iff_forall_not_mem.mpr h)

/-- Some members of two sets are as similar as the sets are. -/
theorem exists_ofSets (hm : m.InUnitInterval) (has : as ≠ ∅) (hbs : bs ≠ ∅) :
    ∃ a ∈ as, ∃ b ∈ bs, m.similarity a b == m.similarity.ofSets as bs := by
  have hself := le_self (number_of_le_right (m.similarity.ofSets_unsigned as bs).nonneg)
  have hreached : ∃ a ∈ as, ∃ b ∈ bs, m.similarity.ofSets as bs ≤ m.similarity a b := by
    rcases (le_ofSets_iff hm.bounded).mp hself with hzero | hpair
    · -- all similarities are zero, so that any pair will do
      obtain ⟨a, ha⟩ := exists_mem_of_ne_empty has
      obtain ⟨b, hb⟩ := exists_mem_of_ne_empty hbs
      exact ⟨a, ha, b, hb, le_trans hzero (hm a b).1⟩
    · exact hpair
  obtain ⟨a, ha, b, hb, hle⟩ := hreached
  exact ⟨a, ha, b, hb, beq_of_le_of_le (similarity_le_ofSets hm ha hb) hle⟩

/-- The similarity of two sets is the largest one of their members, however it is looked for. -/
structure BestPair (m : Measure) (as bs : Std.ExtTreeSet String) : Prop where
  empty : as = ∅ ∨ bs = ∅ → m.setSimilarity as bs = 0
  attained : as ≠ ∅ → bs ≠ ∅ → ∃ a ∈ as, ∃ b ∈ bs, m.similarity a b == m.setSimilarity as bs
  largest : ∀ a ∈ as, ∀ b ∈ bs, m.similarity a b ≤ m.setSimilarity as bs
  anyOrder : ∀ pairs, PairsOf as bs pairs →
    m.similarity.bestOf 0 pairs = m.setSimilarity as bs ∧
      m.similarity.bestOfAll 0 pairs = m.setSimilarity as bs
  grows : ∀ as' bs' : Std.ExtTreeSet String, (∀ a ∈ as, a ∈ as') → (∀ b ∈ bs, b ∈ bs') →
    m.setSimilarity as bs ≤ m.setSimilarity as' bs'
  symmetric : (∀ a b, m.similarity a b == m.similarity b a) →
    m.setSimilarity as bs = m.setSimilarity bs as

/-- For a measure between zero and one that compares sets by their most similar members, the early end of
the search for these never changes the similarity of two sets. It is the largest similarity of their
members, or zero if there are none, does not shrink when values are added, and is the same in both
directions if the measure is. -/
theorem setSimilarity_bestPair (hbest : m.TakesBestPair) (hm : m.InUnitInterval)
    (as bs : Std.ExtTreeSet String) : m.BestPair as bs where
  empty h := by
    rw [hbest]
    exact m.ofSets_empty h
  attained has hbs := by
    rw [hbest]
    exact exists_ofSets hm has hbs
  largest a ha b hb := by
    rw [hbest]
    exact similarity_le_ofSets hm ha hb
  anyOrder pairs hpairs := by
    rw [hbest]
    have hscan := bestOf_eq_ofSets hm.bounded hpairs
    exact ⟨hscan, (bestOf_eq_bestOfAll hm.bounded 0 pairs).symm.trans hscan⟩
  grows as' bs' has hbs := by
    rw [hbest, hbest]
    exact ofSets_le hm.bounded has hbs
  symmetric h := by
    rw [hbest, hbest]
    exact ofSets_swap hm.bounded fun a b c => le_congr_right (h a b) c

/-- Texts of one length are half alike. -/
def sampleMeasure : Measure where
  name := "length"
  similarity a b := if a = b then 1 else if a.length = b.length then 0.5 else -0

/-- A search that ends before the last pair, and one in which all similarities are negative zeros. -/
theorem setSimilarity_bestPair_sample :
    let as := Std.ExtTreeSet.ofList ["ab", "cd"]
    let bs := Std.ExtTreeSet.ofList ["cd", "ef"]
    let cs := Std.ExtTreeSet.ofList ["xyz"]
    sampleMeasure.TakesBestPair ∧ sampleMeasure.InUnitInterval ∧ sampleMeasure.BestPair as bs ∧
      sampleMeasure.BestPair as cs ∧
      sampleMeasure.setSimilarity as bs = sampleMeasure.setSimilarity bs as ∧
        sampleMeasure.setSimilarity as bs = 1 ∧ sampleMeasure.setSimilarity as cs = 0 := by
  intro as bs cs
  have hdefault : sampleMeasure.TakesBestPair := takesBestPair_mk _ _
  have hunit : sampleMeasure.InUnitInterval := by
    intro a b
    simp only [sampleMeasure]
    split
    · decide
    · split <;> decide
  have hsymmetric (a b : String) : sampleMeasure.similarity a b == sampleMeasure.similarity b a := by
    simp only [sampleMeasure, eq_comm (a := a), eq_comm (a := a.length)]
    split
    · decide
    · split <;> decide
  have hbest := setSimilarity_bestPair hdefault hunit as bs
  exact ⟨hdefault, hunit, hbest, setSimilarity_bestPair hdefault hunit as cs,
    hbest.symmetric hsymmetric, by decide +kernel, by decide +kernel⟩

end Measure

end LinkDiscovery
