import LinkDiscovery.Proofs.Execution.Unresolved
/-!
The canonical plan as an image of the specification. It has an instruction for each leaf and a plan that
joins others for each inner node, in the same order, and nothing besides; so the plan, the specification
and the text call the same measures.
-/

namespace LinkDiscovery

open Grammar

namespace Score

/-- A threshold, zero if it is negative. -/
def raised (θ : Float) : Float :=
  if θ < 0 then 0 else θ

theorem larger_zero_eq_raised {θ : Float} (hθ : θ.isNaN = false) : larger θ 0 = raised θ := by
  simp only [larger, raised, hθ, Bool.or_false, decide_eq_true_eq]

end Score

open Score

/-- Whether there are sums can be decided. -/
instance Outline.decidableNoSums : (o : Outline) → Decidable o.NoSums
  | leaf _ _ => isTrue trivial
  | node c left right =>
    have := decidableNoSums left
    have := decidableNoSums right
    inferInstanceAs (Decidable (c.keyword ≠ .add ∧ left.NoSums ∧ right.NoSums))

namespace NestedPlan

mutual

/-- The plans that join others, each before those below it. -/
def composites : NestedPlan → List NestedPlan
  | node _ [] _ _ => []
  | node is (p :: ps) o f => node is (p :: ps) o f :: (composites p ++ compositesOf ps)

def compositesOf : List NestedPlan → List NestedPlan
  | [] => []
  | p :: ps => composites p ++ compositesOf ps

end

mutual

theorem size_eq_length : ∀ p : NestedPlan, p.size = p.allInstructions.length
  | node is ps _ _ => by
      rw [size, allInstructions, List.length_append, sizes_eq_length ps]

theorem sizes_eq_length : ∀ ps : List NestedPlan, sizes ps = (instructionsOf ps).length
  | [] => rfl
  | p :: ps => by
      rw [sizes, instructionsOf, List.length_append, size_eq_length p, sizes_eq_length ps]

end

/-- A plan of one run calls the measures of the text that it runs. -/
theorem measures_run {text : String} {names : List String}
    (h : Expression.measureNames text = .ok names) (θ : Float) :
    (atomic [.run text θ]).measures = names := by
  simp only [atomic, measures, measuresBelow, Option.toList_none, List.nil_append, List.flatMap_singleton,
    List.append_nil, measuresOf, Instruction.run, Option.map_some, h]

end NestedPlan

namespace Specification

open NestedPlan

mutual

/-- The inner nodes, each before those below it. -/
def innerNodes : Specification → List Specification
  | node _ [] => []
  | node l (c :: cs) => node l (c :: cs) :: (innerNodes c ++ innerNodesOf cs)

def innerNodesOf : List Specification → List Specification
  | [] => []
  | c :: cs => innerNodes c ++ innerNodesOf cs

end

/-- The plan of a leaf is an instruction alone, which runs the text of the leaf at its threshold. -/
structure RunBy (leaf : Specification) (i : Instruction) : Prop where
  plan : leaf.plan = .atomic [i]
  run : ∃ text, leaf.label.filter = some text ∧ i = .run text (raised leaf.threshold)

/-- The plan joins the plans of the children of a node by the operator of the node, and filters the result
at its threshold; the pairs of a sum are scored anew. -/
structure JoinedBy (s : Specification) (p : NestedPlan) : Prop where
  instructions : p.instructions = []
  subPlans : p.subPlans = s.children.map plan
  operation : ∃ o, s.label.operator = some o ∧ p.operation = some o.setOperation
  filter : p.filter = some
    { command := .filter, expression := s.weighted, threshold := some (raised s.threshold) }

variable {text : String} {θ : Float}

theorem innerNodes_node (c : Compound) (left right : Outline) (θ : Float) :
    (ofOutline (.node c left right) θ).innerNodes =
      ofOutline (.node c left right) θ :: ((ofOutline left (c.thresholds θ).1).innerNodes ++
        (ofOutline right (c.thresholds θ).2).innerNodes) := by
  simp [ofOutline, ofCompound, innerNodes, innerNodesOf]

/-- The plan of a leaf runs its text. -/
theorem plan_ofCall (text : String) (call : Call) (θ : Float) :
    (ofCall text call θ).plan = .atomic [.run text (larger θ 0)] := by
  simp only [ofCall, plan, planThreshold]

/-- Only sums are scored anew. -/
theorem weighted_ofCompound (c : Compound) (θ : Float) (left right : Specification) :
    (ofCompound c θ left right).weighted =
      if c.keyword = .add then some (ofCompound c θ left right).label.full else none := by
  by_cases hc : c.keyword = .add <;> simp [weighted, ofCompound, label, hc]

/-- The plan of a compound joins the plans of its terms. -/
theorem joinedBy_ofCompound (c : Compound) (hθ : θ.isNaN = false) (left right : Specification) :
    (ofCompound c θ left right).JoinedBy (ofCompound c θ left right).plan := by
  rw [plan_ofCompound, larger_zero_eq_raised hθ]
  refine ⟨rfl, rfl, ⟨_, rfl, rfl⟩, ?_⟩
  rw [weighted_ofCompound, NestedPlan.filter]
  by_cases hc : c.keyword = .add
  · rw [if_pos hc, if_pos hc]
    rfl
  · rw [if_neg hc, if_neg hc]
    rfl

/-- The instructions of the plan run the leaves, from left to right. -/
theorem forall₂_runBy {o : Outline} (hfault : o.fault? text = none) (hθ : θ.isNaN = false) :
    List.Forall₂ RunBy (ofOutline o θ).leaves (ofOutline o θ).plan.allInstructions := by
  induction o generalizing text θ with
  | leaf spelling call =>
      have hplan := plan_ofCall spelling call θ
      rw [larger_zero_eq_raised hθ] at hplan
      rw [ofOutline, hplan]
      exact .cons ⟨hplan, spelling, rfl, rfl⟩ .nil
  | node c left right ihl ihr =>
      obtain ⟨hc, hl, hr⟩ := Outline.fault?_node.mp hfault
      obtain ⟨hθl, hθr⟩ := Compound.thresholds_number hc hθ
      rw [leaves_node, ofOutline, plan_ofCompound, allInstructions, instructionsOf, instructionsOf,
        instructionsOf, List.nil_append, List.append_nil]
      exact List.rel_append (ihl hl hθl) (ihr hr hθr)

/-- The plans that join others are those of the inner nodes, in the same order. -/
theorem forall₂_joinedBy {o : Outline} (hfault : o.fault? text = none) (hθ : θ.isNaN = false) :
    List.Forall₂ JoinedBy (ofOutline o θ).innerNodes (ofOutline o θ).plan.composites := by
  induction o generalizing text θ with
  | leaf spelling call => exact .nil
  | node c left right ihl ihr =>
      obtain ⟨hc, hl, hr⟩ := Outline.fault?_node.mp hfault
      obtain ⟨hθl, hθr⟩ := Compound.thresholds_number hc hθ
      have hroot := joinedBy_ofCompound c hθ (ofOutline left (c.thresholds θ).1)
        (ofOutline right (c.thresholds θ).2)
      rw [innerNodes_node, ofOutline]
      rw [plan_ofCompound] at hroot ⊢
      rw [composites, compositesOf, compositesOf, List.append_nil]
      exact .cons hroot (List.rel_append (ihl hl hθl) (ihr hr hθr))

/-! Measures. -/

/-- The text of a leaf calls the measure of the leaf. -/
theorem measureNames_leaf {name gap : List Char} {pieces : List (List Char)}
    (hw : Spelling.LegibleLeaf name gap pieces) :
    Expression.measureNames (String.ofList (Spelling.leaf name gap pieces).chars) =
      .ok [String.ofList name] := by
  have hlegible : (Spelling.leaf name gap pieces).Legible := hw
  have hparse : Outline.parse (String.ofList (Spelling.leaf name gap pieces).chars) =
      .ok (Spelling.leaf name gap pieces).outline :=
    parse_spelling hlegible (by rw [String.toList_ofList, hlegible.trim])
  have hread := Outline.read_eq_ok.mpr ⟨hparse, rfl⟩
  simp only [Expression.measureNames, hread]
  rfl

/-- Without sums, the plan calls the measures that the expression calls. -/
theorem measures_plan {w : Spelling} (hw : w.Legible) (hsums : w.outline.NoSums) (θ : Float) :
    (ofOutline w.outline θ).plan.measures = w.outline.measures := by
  induction w generalizing θ with
  | leaf name gap pieces =>
      rw [Spelling.outline, ofOutline, plan_ofCall, measures_run (measureNames_leaf hw), Outline.measures]
  | node k word gap f left g right ihl ihr =>
      obtain ⟨-, ⟨-, hl⟩, -, hr⟩ := hw
      obtain ⟨hk, hsl, hsr⟩ := hsums
      have hk : (Spelling.top k f left g right).keyword ≠ .add := hk
      rw [Spelling.ofOutline_node, plan_ofCompound, if_neg hk]
      simp only [measures, measuresBelow, ihl hl hsl, ihr hr hsr, List.append_nil]
      rfl

/-- The canonical plan of a text is an image of the specification. Its instructions run the leaves, as many
as there are, and the plans that join others belong to the inner nodes, each in the same order; and without
sums the plan, the text and the leaves have the same measures. -/
theorem plan_image {s : Specification} (hs : parse text θ = .ok s) (hθ : θ.isFinite = true) :
    List.Forall₂ RunBy s.leaves s.plan.flatten.instructions ∧ s.plan.size = s.leaves.length ∧
      List.Forall₂ JoinedBy s.innerNodes s.plan.composites ∧
        ∀ o, Outline.parse text = .ok o → o.NoSums →
          Expression.measureNames text = .ok s.plan.measures ∧
            s.leaves.map measure = s.plan.measures.map some := by
  obtain ⟨o, ho, hfault, rfl⟩ := parse_eq_ok.mp hs
  have hnumber := number_of_finite hθ
  have hruns := forall₂_runBy hfault hnumber
  refine ⟨hruns, ?_, forall₂_joinedBy hfault hnumber, fun o' ho' hsums => ?_⟩
  · rw [size_eq_length]
    exact hruns.length_eq.symm
  · obtain rfl : o = o' := Except.ok.inj (ho.symm.trans ho')
    obtain ⟨w, hw, rfl, -⟩ := exists_spelling ho
    have hread := Outline.read_eq_ok.mpr ⟨ho, hfault⟩
    rw [measures_plan hw hsums, map_measure_leaves hw]
    refine ⟨?_, rfl⟩
    simp only [Expression.measureNames, hread]
    rfl

/-- Nested compounds, one of which hands a threshold below zero on to its terms. -/
theorem plan_image_sample :
    let text := "OR(MIN(jaccard(x.a,y.a)|0.5, exactmatch(x.b,y.b)|0.5)|-1, trigrams(x.a,y.b)|0.75)"
    ∃ s, parse text 0.5 = .ok s ∧ (0.5 : Float).isFinite = true ∧
      (∀ o, Outline.parse text = .ok o → o.NoSums) ∧
      List.Forall₂ RunBy s.leaves s.plan.flatten.instructions ∧ s.plan.size = s.leaves.length ∧
        List.Forall₂ JoinedBy s.innerNodes s.plan.composites ∧
          Expression.measureNames text = .ok s.plan.measures ∧
            s.leaves.map measure = s.plan.measures.map some ∧
              s.plan.measures = ["jaccard", "exactmatch", "trigrams"] := by
  intro text
  have hmeasures : (parse text 0.5).toOption.map (·.plan.measures) =
      some ["jaccard", "exactmatch", "trigrams"] := by
    decide +kernel
  have hnosums : (Outline.parse text).toOption.all (fun o => decide o.NoSums) = true := by decide +kernel
  have hsums (o : Outline) (ho : Outline.parse text = .ok o) : o.NoSums := by
    rw [toOption_eq_some.mpr ho] at hnosums
    exact of_decide_eq_true hnosums
  obtain ⟨s, hsome, hcalled⟩ := Option.map_eq_some_iff.mp hmeasures
  have hs := toOption_eq_some.mp hsome
  obtain ⟨hruns, hsize, hjoins, hnames⟩ := plan_image hs rfl
  obtain ⟨o, ho, -⟩ := parse_eq_ok.mp hs
  obtain ⟨hnames, hleaves⟩ := hnames o ho (hsums o ho)
  exact ⟨s, hs, rfl, hsums, hruns, hsize, hjoins, hnames, hleaves, hcalled⟩

end Specification

end LinkDiscovery
