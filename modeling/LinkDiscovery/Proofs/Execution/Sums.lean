import LinkDiscovery.Proofs.Execution.Agreement
import LinkDiscovery.Proofs.Execution.Outcomes
import LinkDiscovery.Proofs.Measure.Names
import LinkDiscovery.Proofs.Specification.Bars
/-!
Sums of scores. The plan of a sum scores the pairs anew that both of its terms link, so that it finds
a pair whose sum reaches the threshold only if the thresholds that the terms are given have not kept
the pair out.
-/

namespace LinkDiscovery

open Grammar Score

namespace Engine

variable {e : Engine}

/-- Links are scored anew only if the expression can be read. -/
theorem read_of_applyFilter {text : String} {threshold : Float} {links : Links} {ex : Execution}
    (h : e.applyFilter (.filteringBy text threshold) links none = .ok ex) :
    ∃ o, Outline.read text = .ok o := by
  cases hread : Outline.read text with
  | ok o => exact ⟨o, rfl⟩
  | error fault =>
      simp [applyFilter, Instruction.filteringBy, Registry.unresolved_eq, hread, Except.map] at h

/-- A plan over two others comes to an end only if its filter does. -/
theorem filter_of_executeNested {p q : NestedPlan} {o : SetOperation} {f : Instruction}
    {ex : Execution} (h : e.executeNested (.node [] [p, q] (some o) (some f)) = .ok ex) :
    ∃ links result, e.applyFilter f links none = .ok result := by
  simp only [executeNested_join, bind_eq_ok] at h
  obtain ⟨left, -, right, -, result, hresult, -⟩ := h
  exact ⟨_, result, hresult⟩

end Engine

namespace Scorer

/-- A sum links a pair if both of its terms do and the weighted score reaches the threshold. -/
theorem linked_sum {c : Compound} {left right : Scorer} {a b : Entity} {θ : Float}
    (hc : c.keyword = .add) (hθ : 0 < θ) (hscore : 0 ≤ (compound c left right).score a b) :
    (compound c left right).linked a b θ =
      if (left.linked a b (c.thresholds θ).1).isSome ∧ (right.linked a b (c.thresholds θ).2).isSome
      then reached θ ((compound c left right).score a b) else none := by
  have hbound : larger θ 0 = θ := larger_eq_left (number_of_le_right (le_of_lt hθ)) (le_of_lt hθ)
  have hlt := not_lt (number_of_le_right hscore) (number_of_le_right (le_of_lt hθ))
  have hkept : (if (compound c left right).score a b < θ then none
      else some ((compound c left right).score a b)) =
        reached θ ((compound c left right).score a b) := by
    by_cases h : θ ≤ (compound c left right).score a b
    · rw [if_neg (hlt.mpr h), reached_self h]
    · rw [if_pos (not_not.mp (mt hlt.mp h)), reached_below h]
  rw [linked, ← hkept]
  simp only [hc, if_true, Keyword.operator, Operator.setOperation, hbound]
  cases left.linked a b (c.thresholds θ).1 with
  | none => simp [SetOperation.joined]
  | some x =>
      cases right.linked a b (c.thresholds θ).2 with
      | none => simp [SetOperation.joined]
      | some y =>
          simp only [SetOperation.joined, Option.bind_some, Option.map_some, Option.isSome_some,
            and_self, if_true]
          rfl

end Scorer

namespace Engine

open Specification

variable {sides : Sides} {text : String} {θ : Float} {s : Specification} {c : Compound}
  {left right : Outline}

/-- The plan of a sum comes to an end only if all thresholds of the specification are finite. -/
theorem finite_of_executeNested {e : Engine} {ex : Execution} (hs : parse text θ = .ok s)
    (ho : Outline.parse text = .ok (.node c left right)) (hc : c.keyword = .add)
    (hfinite : θ.isFinite = true) (hex : e.executeNested s.plan = .ok ex) :
    ∀ t, IsNode t s → t.threshold.isFinite = true := by
  obtain ⟨o, ho', -, rfl⟩ := parse_eq_ok.mp hs
  obtain rfl : o = .node c left right := Except.ok.inj (ho'.symm.trans ho)
  obtain ⟨w, hw, hw', -⟩ := exists_spelling ho
  have hplan := plan_ofCompound c θ (ofOutline left (c.thresholds θ).1)
    (ofOutline right (c.thresholds θ).2)
  rw [if_pos hc] at hplan
  rw [ofOutline, hplan] at hex
  -- the filter has read the full text, and that is read only with finite numbers in it
  obtain ⟨links, result, hfilter⟩ := filter_of_executeNested hex
  obtain ⟨o, hread⟩ := read_of_applyFilter hfilter
  have hbelow := finite_of_read_full (w := w) (θ := θ) (o := o) (by rw [hw']; exact hread)
  rw [hw'] at hbelow
  intro t ht
  cases ht with
  | root => exact hfinite
  | child hchild ht => exact hbelow _ hchild t ht

theorem compile_sum (sv tv : String) (hs : parse text θ = .ok s)
    (ho : Outline.parse text = .ok (.node c left right))
    (hcalls : (Outline.node c left right).ComparesBy .standard) :
    ∃ a b, Registry.standard.compile text sv tv = .ok (.compound c a b) := by
  obtain ⟨o, ho', hfault, -⟩ := parse_eq_ok.mp hs
  obtain rfl : o = .node c left right := Except.ok.inj (ho'.symm.trans ho)
  obtain ⟨scorer, hscorer⟩ := Registry.exists_resolve sv tv hcalls hfault
  obtain ⟨-, a, b, -, -, rfl⟩ := Registry.resolve_node.mp hscorer
  exact ⟨a, b, (Registry.compile_read ho hscorer).1⟩

/-- The plan of a sum with finite thresholds links the pairs that both terms link and whose weighted
score reaches the threshold. -/
theorem executeNested_sum (hsides : sides.Keyed) (hθ : 0 < θ) (hs : parse text θ = .ok s)
    (ho : Outline.parse text = .ok (.node c left right)) (hc : c.keyword = .add)
    (hcalls : (Outline.node c left right).ComparesBy .standard)
    (hfinite : ∀ t, IsNode t s → t.threshold.isFinite = true) :
    ∃ a b ex, Registry.standard.compile text sides.sourceVar sides.targetVar =
        .ok (.compound c a b) ∧
      (standard sides).executeNested s.plan = .ok ex ∧
        ∀ source target, ex.links.find? source target = sides.onPair source target fun x y =>
          if (a.linked x y (c.thresholds θ).1).isSome ∧ (b.linked x y (c.thresholds θ).2).isSome
          then reached θ ((Scorer.compound c a b).score x y) else none := by
  obtain ⟨o, ho', hfault, rfl⟩ := parse_eq_ok.mp hs
  obtain rfl : o = .node c left right := Except.ok.inj (ho'.symm.trans ho)
  obtain ⟨w, hw, hw', -⟩ := exists_spelling ho
  obtain ⟨scorer, hscorer⟩ := Registry.exists_resolve sides.sourceVar sides.targetVar hcalls hfault
  obtain ⟨-, a, b, -, -, rfl⟩ := Registry.resolve_node.mp hscorer
  rw [← hw'] at hcalls hfinite hscorer
  have hbare := Spelling.bareTerms_of_standard hw hcalls
  obtain ⟨ex, hex, -, hlinks⟩ := executeNested_plan Registry.standard_pairwise hsides hw hscorer
    (θ := θ) (.inr ⟨hbare, hfinite⟩)
  rw [hw'] at hex hscorer
  refine ⟨a, b, ex, (Registry.compile_read ho hscorer).1, hex, fun source target => ?_⟩
  rw [hlinks]
  congr 1
  funext x y
  exact Scorer.linked_sum hc hθ (Scorer.score_nonneg Registry.standard_takesBestPairs hscorer x y)

/-- For a sum of terms that compare two properties at a time by standard measures, and collections in
which each entity stands under its own address, the canonical plan links exactly the pairs of known
entities whose weighted score reaches the threshold, with that score, if and only if all thresholds of the
specification are finite and no pair whose weighted score reaches the threshold is kept out by a term. -/
theorem executeNested_sum_iff (hsides : sides.Keyed) (hθ : 0 < θ) (hfinite : θ.isFinite = true)
    (hs : parse text θ = .ok s) (ho : Outline.parse text = .ok (.node c left right))
    (hc : c.keyword = .add) (hcalls : (Outline.node c left right).ComparesBy .standard) :
    ∃ a b, Registry.standard.compile text sides.sourceVar sides.targetVar =
        .ok (.compound c a b) ∧
      ((∃ ex, (standard sides).executeNested s.plan = .ok ex ∧
          ∀ source target, ex.links.find? source target = sides.onPair source target fun x y =>
            reached θ ((Scorer.compound c a b).score x y)) ↔
        (∀ t, IsNode t s → t.threshold.isFinite = true) ∧
          ∀ source target x y, sides.source.find? source = some x →
            sides.target.find? target = some y → θ ≤ (Scorer.compound c a b).score x y →
              (a.linked x y (c.thresholds θ).1).isSome ∧
                (b.linked x y (c.thresholds θ).2).isSome) := by
  obtain ⟨a, b, hcompile⟩ := compile_sum sides.sourceVar sides.targetVar hs ho hcalls
  refine ⟨a, b, hcompile, ?_⟩
  constructor
  · rintro ⟨ex, hex, hlinks⟩
    have hall := finite_of_executeNested hs ho hc hfinite hex
    obtain ⟨a', b', ex', hcompile', hex', hlinks'⟩ :=
      executeNested_sum hsides hθ hs ho hc hcalls hall
    obtain ⟨-, rfl, rfl⟩ := Scorer.compound.inj (Except.ok.inj (hcompile'.symm.trans hcompile))
    obtain rfl : ex' = ex := Except.ok.inj (hex'.symm.trans hex)
    refine ⟨hall, fun source target x y hx hy hscore => ?_⟩
    -- the plan gives the pair a confidence, and it gives one only if both terms link the pair
    have hlink := (hlinks' source target).symm.trans (hlinks source target)
    simp only [Sides.onPair, hx, hy, Option.bind_some, reached_self hscore] at hlink
    by_contra hkept
    rw [if_neg hkept] at hlink
    cases hlink
  · rintro ⟨hall, hkept⟩
    obtain ⟨a', b', ex, hcompile', hex, hlinks⟩ :=
      executeNested_sum hsides hθ hs ho hc hcalls hall
    obtain ⟨-, rfl, rfl⟩ := Scorer.compound.inj (Except.ok.inj (hcompile'.symm.trans hcompile))
    refine ⟨ex, hex, fun source target => ?_⟩
    rw [hlinks]
    unfold Sides.onPair
    cases hx : sides.source.find? source with
    | none => rfl
    | some x =>
        cases hy : sides.target.find? target with
        | none => rfl
        | some y =>
            by_cases hscore : θ ≤ (Scorer.compound c a' b').score x y
            · simp only [Option.bind_some, if_pos (hkept source target x y hx hy hscore)]
            · simp only [Option.bind_some, reached_below hscore, ite_self]

theorem executeNested_sum_iff_sample :
    let w := Spelling.sample .add ['a', 'd', 'd']
    ∃ c a b, Registry.standard.compile (String.ofList w.chars) "x" "y" = .ok (.compound c a b) ∧
      ((∃ ex, (standard sampleSides).executeNested (w.tree 0.75).plan = .ok ex ∧
          ∀ source target, ex.links.find? source target =
            sampleSides.onPair source target fun x y =>
              reached 0.75 ((Scorer.compound c a b).score x y)) ↔
        (∀ t, IsNode t (w.tree 0.75) → t.threshold.isFinite = true) ∧
          ∀ source target x y, sampleSides.source.find? source = some x →
            sampleSides.target.find? target = some y → 0.75 ≤ (Scorer.compound c a b).score x y →
              (a.linked x y (c.thresholds 0.75).1).isSome ∧
                (b.linked x y (c.thresholds 0.75).2).isSome) := by
  intro w
  have hw : w.WrittenOut := Spelling.sample_writtenOut rfl
  obtain ⟨ho, hs⟩ := hw.parse_chars 0.75
  rw [← Spelling.ofOutline_eq_tree]
  exact ⟨_, executeNested_sum_iff sampleSides_keyed (by decide) rfl hs ho rfl ⟨⟨rfl, rfl⟩, rfl, rfl⟩⟩

/-- Whether the score of a text reaches the threshold for a pair, and whether the canonical plan
links the pair; nothing where the text cannot be read or the plan cannot be carried out. -/
def verdicts (sides : Sides) (text : String) (θ : Float) (source target : String) :
    Option Bool × Option Bool :=
  ((Registry.standard.compile text sides.sourceVar sides.targetVar).toOption.map fun scorer =>
      (sides.onPair source target fun a b => reached θ (scorer.score a b)).isSome,
    ((parse text θ).toOption.bind fun s => ((standard sides).executeNested s.plan).toOption).map
      fun ex => (ex.links.find? source target).isSome)

/-- Terms keep pairs out whose weighted score reaches the threshold: a compound that does not link a
pair keeps it out even if nothing is asked of its score, and a threshold may be rounded to more than
the score can reach. -/
theorem verdicts_differ :
    verdicts sampleSides
        "ADD(0.5*AND(exactmatch(x.a,y.a)|0.5,exactmatch(x.b,y.b)|0.5)|0,0.5*exactmatch(x.a,y.a)|0)"
        0.4 "s" "t" = (some true, some false) ∧
      verdicts sampleSides "ADD(0.3*exactmatch(x.a,y.a)|0,0.7*exactmatch(x.a,y.a)|0)" 1 "s" "t" =
        (some true, some false) := by
  decide +kernel

end Engine

end LinkDiscovery
