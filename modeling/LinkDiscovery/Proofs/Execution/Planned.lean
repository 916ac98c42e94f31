import LinkDiscovery.Proofs.Execution.Meaning
import LinkDiscovery.Proofs.Measure.Resolution
/-!
Plans of specifications are carried out as their expressions mean: the result links a pair of
addresses if and only if both are known and the expression links their entities.
-/

namespace LinkDiscovery

open Grammar

namespace Specification

/-- The plan of a compound joins the plans of its terms. -/
theorem plan_ofCompound (c : Compound) (θ : Float) (left right : Specification) :
    (ofCompound c θ left right).plan =
      .node [] [left.plan, right.plan] (some c.keyword.operator.setOperation)
        (some (if c.keyword = .add then
          .filteringBy (ofCompound c θ left right).label.full (Score.larger θ 0)
        else .filtering (Score.larger θ 0))) := by
  by_cases hc : c.keyword = .add <;>
    simp [ofCompound, plan, plans, planFilter, planThreshold, label, hc]

/-- What is asked of the sums in an expression: their full texts can be read. Without sums nothing
is. -/
def SumsReadable (w : Spelling) (θ : Float) : Prop :=
  w.outline.NoSums ∨
    (w.BareTerms ∧ ∀ t, IsNode t (ofOutline w.outline θ) → t.threshold.isFinite = true)

theorem SumsReadable.terms {k : Keyword} {word gap : List Char} {f g : Frame}
    {left right : Spelling} {θ : Float}
    (h : SumsReadable (.node k word gap f left g right) θ) :
    SumsReadable left ((Spelling.top k f left g right).thresholds θ).1 ∧
      SumsReadable right ((Spelling.top k f left g right).thresholds θ).2 := by
  rcases h with ⟨-, hl, hr⟩ | ⟨⟨-, hl, hr⟩, hθ⟩
  · exact ⟨.inl hl, .inl hr⟩
  · obtain ⟨-, hθl, hθr⟩ := forall_nodes.mp hθ
    exact ⟨.inr ⟨hl, hθl⟩, .inr ⟨hr, hθr⟩⟩

end Specification

namespace Engine

open Specification

variable {r : Registry} {sides : Sides} {w : Spelling} {text : String} {scorer : Scorer}

/-- Carrying out the plan of a call. -/
theorem executeNested_leaf (hr : r.Pairwise) (hsides : sides.Keyed) {name gap : List Char}
    {pieces : List (List Char)} (hw : Spelling.LegibleLeaf name gap pieces)
    (h : r.resolve sides.sourceVar sides.targetVar text (Spelling.leaf name gap pieces).outline =
      .ok scorer) (θ : Float) :
    ∃ ex, (ofRegistry sides r).executeNested
        (ofOutline (Spelling.leaf name gap pieces).outline θ).plan = .ok ex ∧
      ex.warnings = [] ∧ ∀ s t, ex.links.find? s t =
        sides.onPair s t fun a b => scorer.linked a b θ := by
  obtain ⟨first, second, m, harguments, hm, rfl⟩ := Registry.resolve_leaf.mp h
  have hread := comparison_read hw harguments sides.sourceVar sides.targetVar
  have hmapper := hr (String.ofList name)
  rw [hm, Option.map_some] at hmapper
  refine ⟨_, execute_run (e := ofRegistry sides r) hread hmapper, rfl, fun s t => ?_⟩
  exact Mapper.find?_pairsAtLeast hsides _ _ s t

/-- The filter of a compound, on links that depend on the entities of a pair alone. -/
theorem applyFilter_compound {k : Keyword} {f g : Frame} {left right : Spelling} {a b : Scorer}
    {word gap : List Char} (hw : (Spelling.node k word gap f left g right).Legible)
    (h : r.resolve sides.sourceVar sides.targetVar text
      (Spelling.node k word gap f left g right).outline =
        .ok (.compound (Spelling.top k f left g right) a b)) {θ : Float}
    (hsums : SumsReadable (.node k word gap f left g right) θ) {links : Links}
    {joined : Entity → Entity → Option Float}
    (hlinks : ∀ s t, links.find? s t = sides.onPair s t joined) :
    ∃ ex, (ofRegistry sides r).applyFilter
        (if k = .add then
          .filteringBy (ofOutline (Spelling.node k word gap f left g right).outline θ).label.full
            (Score.larger θ 0)
        else .filtering (Score.larger θ 0)) links none = .ok ex ∧
      ex.warnings = [] ∧ ∀ s t, ex.links.find? s t =
        sides.onPair s t fun x y => (joined x y).bind fun c =>
          if k = .add then
            let score := Scorer.combine (Spelling.top k f left g right) (a.score x y) (b.score x y)
            if score < Score.larger θ 0 then none else some score
          else reached (Score.larger θ 0) c := by
  by_cases hk : k = .add
  · -- the filter reads the full text anew, and its scorer scores as that of the expression
    obtain ⟨hbare, hθ⟩ := hsums.resolve_left fun hnone => hnone.1 hk
    have hfault := Registry.fault?_of_resolve h
    have hparse := parse_outline_full hw hbare hfault hθ
    obtain ⟨scorer', hscorer', hscore⟩ := Spelling.resolve_canonical h hθ (Text.trim
      (ofOutline (Spelling.node k word gap f left g right).outline θ).label.full)
    obtain ⟨hcompile, hknown⟩ := Registry.compile_read hparse hscorer'
    simp only [hk, if_true] at hcompile hknown ⊢
    refine ⟨_, applyFilter_filteringBy hknown hcompile, rfl, fun s t => ?_⟩
    rw [Links.find?_rescore, hlinks]
    refine (Sides.onPair_bind_onPair sides s t joined fun _ x y => _).trans ?_
    simp only [hscore, Scorer.score, hk]
  · simp only [hk, if_false]
    refine ⟨_, applyFilter_filtering _ _, rfl, fun s t => ?_⟩
    rw [Links.find?_atLeast, hlinks, Sides.onPair_bind]
    rfl

/-- The plan of an expression gives the links that the expression means. -/
theorem executeNested_plan (hr : r.Pairwise) (hsides : sides.Keyed) (hw : w.Legible)
    (h : r.resolve sides.sourceVar sides.targetVar text w.outline = .ok scorer) {θ : Float}
    (hsums : SumsReadable w θ) :
    ∃ ex, (ofRegistry sides r).executeNested (ofOutline w.outline θ).plan = .ok ex ∧
      ex.warnings = [] ∧ ∀ s t, ex.links.find? s t =
        sides.onPair s t fun a b => scorer.linked a b θ := by
  induction w generalizing text scorer θ with
  | leaf name gap pieces => exact executeNested_leaf hr hsides hw h θ
  | node k word gap f left g right ihl ihr =>
      obtain ⟨-, ⟨-, hl⟩, -, hrl⟩ := id hw
      obtain ⟨-, a, b, ha, hb, rfl⟩ := Registry.resolve_node.mp h
      obtain ⟨hsl, hsr⟩ := hsums.terms
      obtain ⟨exl, hexl, hwl, hlinksl⟩ := ihl hl ha hsl
      obtain ⟨exr, hexr, hwr, hlinksr⟩ := ihr hrl hb hsr
      -- what the induction carries: the links of a plan depend on the entities of a pair alone
      have hjoined (s t : String) :
          (k.operator.setOperation.apply exl.links exr.links).find? s t =
            sides.onPair s t fun x y => k.operator.setOperation.joined
              (a.linked x y ((Spelling.top k f left g right).thresholds θ).1)
              (b.linked x y ((Spelling.top k f left g right).thresholds θ).2) := by
        rw [SetOperation.find?_apply, hlinksl, hlinksr, Sides.joined_onPair]
      obtain ⟨ex, hex, hwarnings, hlinks⟩ := applyFilter_compound hw h hsums hjoined
      refine ⟨{ links := ex.links, warnings := exl.warnings ++ exr.warnings ++ ex.warnings },
        ?_, by simp [hwl, hwr, hwarnings], hlinks⟩
      rw [Spelling.ofOutline_node, plan_ofCompound]
      exact executeNested_pair hexl hexr hex

end Engine

end LinkDiscovery
