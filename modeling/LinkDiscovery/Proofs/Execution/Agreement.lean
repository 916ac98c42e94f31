import LinkDiscovery.Proofs.Execution.Planned
import LinkDiscovery.Proofs.Measure.Scores
/-!
Plans and scores agree on expressions without sums: where inner nodes have thresholds above zero, a
pair is linked if and only if its score reaches the threshold of the root, and its confidence is the
score.
-/

namespace LinkDiscovery

open Score

theorem reached_larger {θ s : Float} (hθ : θ.isNaN = false) (hs : 0 ≤ s) :
    reached (larger θ 0) s = reached θ s := by
  simp only [reached, larger_zero_le_iff hθ hs]

theorem reached_zero {θ : Float} (hθ : 0 < θ) : reached θ 0 = none :=
  if_neg (not_le_of_lt hθ)

theorem reached_self {θ s : Float} (h : θ ≤ s) : reached θ s = some s :=
  if_pos h

theorem reached_below {θ s : Float} (h : ¬ θ ≤ s) : reached θ s = none :=
  if_neg h

namespace Scorer

/-- Apart from sums, joining the terms of a compound links a pair if and only if the score that is
made of their scores reaches the threshold. -/
theorem joined_reached {c : Compound} {θ s₁ s₂ : Float} (hc : c.keyword ≠ .add) (hθ : 0 < θ)
    (h₁ : 0 ≤ s₁) (h₂ : 0 ≤ s₂) :
    (c.keyword.operator.setOperation.joined (reached (c.thresholds θ).1 s₁)
        (reached (c.thresholds θ).2 s₂)).bind (reached θ) = reached θ (combine c s₁ s₂) := by
  have n₁ := number_of_le_right h₁
  have n₂ := number_of_le_right h₂
  have hmerged := Links.merged_some n₁ s₂
  have hnone := reached_zero hθ
  cases hk : c.keyword with
  | add => exact absurd hk hc
  | and | or | xor | minus =>
      -- a pair that the plan leaves out scores zero, which is below the threshold
      simp only [hk, Keyword.operator, Operator.setOperation, Compound.thresholds, combine]
      by_cases hl : c.left.threshold ≤ s₁ <;> by_cases hr : c.right.threshold ≤ s₂ <;>
        simp [reached_self, reached_below, hl, hr, SetOperation.joined, hnone, hmerged]
  | min =>
      -- both terms have the threshold of the compound, so the smaller score reaches it if both do
      have h := le_smaller_iff (c := θ) n₁ n₂
      simp only [hk, Keyword.operator, Operator.setOperation, Compound.thresholds, combine]
      by_cases hl : θ ≤ s₁ <;> by_cases hr : θ ≤ s₂ <;> simp only [hl, hr] at h <;>
        simp_all [reached, SetOperation.joined]
  | max =>
      have h := le_larger_iff (c := θ) n₁ n₂
      simp only [hk, Keyword.operator, Operator.setOperation, Compound.thresholds, combine]
      by_cases hl : θ ≤ s₁ <;> by_cases hr : θ ≤ s₂
      · simp [reached_self hl, reached_self hr, SetOperation.joined, hmerged]
      · have hlarger : larger s₁ s₂ = s₁ :=
          larger_eq_left n₁ (le_of_lt ((not_le n₁ n₂).mp fun h => hr (le_trans hl h)))
        simp [reached_self hl, reached_below hr, SetOperation.joined, hlarger]
      · have hlarger : larger s₁ s₂ = s₂ :=
          larger_eq_right ((not_le n₂ n₁).mp fun h => hl (le_trans hr h))
        simp [reached_self hr, reached_below hl, SetOperation.joined, hlarger]
      · have h : ¬ θ ≤ larger s₁ s₂ := by simp [le_larger_iff n₁ n₂, hl, hr]
        simp [reached_below hl, reached_below hr, reached_below h, SetOperation.joined]

end Scorer

namespace Scorer

variable {r : Registry} {sv tv text : String} {scorer : Scorer} {o : Outline} {θ : Float}

/-- Without sums, an expression links the entities whose score reaches its threshold. -/
theorem linked_eq_reached (hr : r.TakesBestPairs) (h : r.resolve sv tv text o = .ok scorer)
    (hsums : o.NoSums) (hθ : θ.isNaN = false)
    (hpos : ∀ t, Specification.IsNode t (Specification.ofOutline o θ) → t.children ≠ [] →
      0 < t.threshold) (a b : Entity) :
    scorer.linked a b θ = reached θ (scorer.score a b) := by
  induction o generalizing text scorer θ with
  | leaf spelling call =>
      obtain ⟨first, second, m, -, hm, rfl⟩ := Registry.resolve_leaf.mp h
      exact reached_larger hθ (Measure.score_nonneg (hr _ m hm) _ _ a b)
  | node c left right ihl ihr =>
      obtain ⟨hc, hsl, hsr⟩ := hsums
      obtain ⟨hfault, x, y, hx, hy, rfl⟩ := Registry.resolve_node.mp h
      obtain ⟨hroot, hpl, hpr⟩ := Specification.forall_nodes.mp hpos
      obtain ⟨hnl, hnr⟩ := Compound.thresholds_number hfault hθ
      have hx₀ := score_nonneg hr hx a b
      have hy₀ := score_nonneg hr hy a b
      -- only inner nodes are asked for a threshold above zero, and this is one
      have hθ₀ : 0 < θ := hroot (List.cons_ne_nil _ _)
      rw [linked, score, ihl hx hsl hnl hpl, ihr hy hsr hnr hpr, ← joined_reached hc hθ₀ hx₀ hy₀]
      simp only [hc, if_false, larger_eq_left hθ (le_of_lt hθ₀)]

/-- Without sums, a term keeps a pair out only if the score of the pair misses the threshold. -/
theorem linked_isSome (hr : r.TakesBestPairs) (h : r.resolve sv tv text o = .ok scorer)
    (hsums : o.NoSums) (hθ : θ.isNaN = false)
    (hpos : ∀ t, Specification.IsNode t (Specification.ofOutline o θ) → t.children ≠ [] →
      0 < t.threshold) (a b : Entity) :
    (scorer.linked a b θ).isSome ↔ θ ≤ scorer.score a b := by
  rw [linked_eq_reached hr h hsums hθ hpos]
  by_cases hscore : θ ≤ scorer.score a b <;> simp [reached, hscore]

end Scorer

namespace Engine

/-- For an expression without sums whose inner nodes have thresholds above zero, and which compares
two properties at a time by standard measures, the canonical plan is carried out without a warning,
and it links the pairs of known entities whose score reaches the threshold, with that score. -/
theorem executeNested_agrees {sides : Sides} (hsides : sides.Keyed) {text : String} {θ : Float}
    (hθ : 0 < θ) {s : Specification} (hs : Specification.parse text θ = .ok s) {o : Outline}
    (ho : Outline.parse text = .ok o) (hsums : o.NoSums) (hcalls : o.ComparesBy .standard)
    (hpos : ∀ t, Specification.IsNode t s → t.children ≠ [] → 0 < t.threshold) :
    ∃ scorer ex,
      Registry.standard.compile text sides.sourceVar sides.targetVar = .ok scorer ∧
        (standard sides).executeNested s.plan = .ok ex ∧ ex.warnings = [] ∧
          ∀ source target, ex.links.find? source target =
            sides.onPair source target fun a b =>
              if θ ≤ scorer.score a b then some (scorer.score a b) else none := by
  obtain ⟨o', ho', hfault, rfl⟩ := Specification.parse_eq_ok.mp hs
  obtain rfl : o' = o := Except.ok.inj (ho'.symm.trans ho)
  obtain ⟨w, hw, rfl, -⟩ := Grammar.exists_spelling ho
  obtain ⟨scorer, hscorer⟩ := Registry.exists_resolve sides.sourceVar sides.targetVar hcalls hfault
  obtain ⟨ex, hex, hwarnings, hlinks⟩ :=
    executeNested_plan Registry.standard_pairwise hsides hw hscorer (θ := θ) (.inl hsums)
  refine ⟨scorer, ex, (Registry.compile_read ho hscorer).1, hex, hwarnings, fun source target => ?_⟩
  have hnumber := number_of_le_right (le_of_lt hθ)
  rw [hlinks]
  congr 1
  funext a b
  exact Scorer.linked_eq_reached Registry.standard_takesBestPairs hscorer hsums hnumber hpos a b

/-- Two collections of one entity each, with equal names. -/
def sampleSides : Sides where
  source := .ofList [((Entity.ofUri "s").addProperty "a" "one").addProperty "b" "two"]
  target := .ofList [((Entity.ofUri "t").addProperty "a" "one").addProperty "b" "twos"]
  sourceVar := "x"
  targetVar := "y"

theorem sampleSides_keyed : sampleSides.Keyed :=
  ⟨Collection.keyed_ofList _, Collection.keyed_ofList _⟩

theorem executeNested_agrees_sample :
    let w := Grammar.Spelling.sample .and ['A', 'n', 'd']
    Specification.parse (String.ofList w.chars) 0.5 = .ok (w.tree 0.5) ∧
      ∃ scorer ex, Registry.standard.compile (String.ofList w.chars) "x" "y" = .ok scorer ∧
        (standard sampleSides).executeNested (w.tree 0.5).plan = .ok ex ∧ ex.warnings = [] ∧
          ∀ source target, ex.links.find? source target =
            sampleSides.onPair source target fun a b =>
              if 0.5 ≤ scorer.score a b then some (scorer.score a b) else none := by
  intro w
  have hw : w.WrittenOut := Grammar.Spelling.sample_writtenOut rfl
  obtain ⟨ho, hs⟩ := hw.parse_chars 0.5
  rw [← Grammar.Spelling.ofOutline_eq_tree]
  refine ⟨hs, executeNested_agrees sampleSides_keyed (by decide) hs ho
    ⟨by decide, trivial, trivial⟩ ⟨⟨rfl, rfl⟩, rfl, rfl⟩ ?_⟩
  refine Specification.forall_nodes.mpr ⟨fun _ => ?_, Specification.forall_nodes_leaf.mpr ?_,
    Specification.forall_nodes_leaf.mpr ?_⟩
  · change (0 : Float) < 0.5
    decide
  · exact fun h => absurd rfl h
  · exact fun h => absurd rfl h

end Engine

end LinkDiscovery
