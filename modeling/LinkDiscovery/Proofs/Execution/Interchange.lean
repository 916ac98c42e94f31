import LinkDiscovery.Proofs.Execution.EqualPlans
import LinkDiscovery.Proofs.Execution.Registered
import LinkDiscovery.Proofs.Execution.Results
import LinkDiscovery.Proofs.Specification.Equality
/-!
Equal specifications that link alike. Equality passes over much that decides what is linked: small
differences of thresholds, the thresholds of inner nodes, the coefficients of sums, the keywords below them
and the letter case of properties. Where these agree, the order of terms makes no difference.
-/

namespace LinkDiscovery

open Double (IsUnsigned)
open Grammar Score

/-! Terms in the other order. -/

/-- The compound with its terms in the other order. -/
def Compound.swap (c : Compound) : Compound :=
  { c with left := c.right, right := c.left }

theorem Compound.thresholds_swap (c : Compound) (θ : Float) :
    c.swap.thresholds θ = ((c.thresholds θ).2, (c.thresholds θ).1) := by
  obtain ⟨k, left, right⟩ := c
  cases k <;> rfl

theorem Compound.fault?_swap {c : Compound} {text : String} (h : c.fault? text = none) :
    c.swap.fault? text = none := by
  obtain ⟨⟨hl, hr⟩, hadd⟩ := fault?_eq_none.mp h
  exact fault?_eq_none.mpr ⟨⟨hr, hl⟩, fun hk => (hadd hk).symm⟩

theorem Links.merged_comm {c d : Option Float} (hc : ∀ x ∈ c, IsUnsigned x)
    (hd : ∀ x ∈ d, IsUnsigned x) : merged c d = merged d c := by
  cases c with
  | none => simp
  | some x =>
      cases d with
      | none => simp
      | some y =>
          have hx := hc x rfl
          have hy := hd y rfl
          rw [merged_some (number_of_le_right hx.nonneg), merged_some (number_of_le_right hy.nonneg),
            larger_comm hx hy]

/-- All operations but the difference join confidences in either order. -/
theorem SetOperation.joined_comm {o : Operator} (ho : o.isCommutative = true) {c d : Option Float}
    (hc : ∀ x ∈ c, IsUnsigned x) (hd : ∀ x ∈ d, IsUnsigned x) :
    o.setOperation.joined c d = o.setOperation.joined d c := by
  cases o with
  | and =>
      cases c <;> cases d <;> try rfl
      exact congrArg some (smaller_comm (hc _ rfl) (hd _ rfl))
  | or => exact Links.merged_comm hc hd
  | xor => cases c <;> cases d <;> rfl
  | minus => cases ho

theorem Scorer.combine_swap {c : Compound} (hc : c.keyword.operator.isCommutative = true)
    {s₁ s₂ : Float} (h₁ : IsUnsigned s₁) (h₂ : IsUnsigned s₂) :
    combine c.swap s₂ s₁ = combine c s₁ s₂ := by
  have hsmaller := smaller_comm h₁ h₂
  have hlarger := larger_comm h₁ h₂
  obtain ⟨k, left, right⟩ := c
  cases k with
  | and | or => grind [combine, Compound.swap]
  | xor => grind [combine, Compound.swap]
  | minus => cases hc
  | min => exact hsmaller.symm
  | max => exact hlarger.symm
  | add => exact Double.sum_comm _ _

namespace Outline

variable {r : Registry} {sides : Sides} {text : String} {c : Compound} {left right : Outline}

theorem fault?_swap (h : (node c left right).fault? text = none) :
    (node c.swap right left).fault? text = none := by
  obtain ⟨hc, hl, hr⟩ := fault?_node.mp h
  exact fault?_node.mpr ⟨Compound.fault?_swap hc, hr, hl⟩

theorem score?_swap (hbest : r.TakesBestPairs) (hc : c.keyword.operator.isCommutative = true)
    (hfault : (node c left right).fault? text = none) :
    (node c.swap right left).score? r sides = (node c left right).score? r sides := by
  obtain ⟨-, hl, hr⟩ := fault?_node.mp hfault
  simp only [score?]
  cases hf : left.score? r sides with
  | none => cases right.score? r sides <;> simp
  | some f =>
      cases hg : right.score? r sides with
      | none => simp
      | some g =>
          simp only [Option.bind_some, Option.map_some]
          refine congrArg some (funext fun a => funext fun b => ?_)
          exact Scorer.combine_swap hc (score?_unsigned hbest hl hf a b)
            (score?_unsigned hbest hr hg a b)

/-- The plan of a compound links alike with its terms in the other order. -/
theorem linkedAt_swap (hbest : r.TakesBestPairs) (hc : c.keyword.operator.isCommutative = true)
    (hfault : (node c left right).fault? text = none) (s t : String) (θ : Float) :
    (node c.swap right left).linkedAt r sides s t θ =
      (node c left right).linkedAt r sides s t θ := by
  obtain ⟨-, hl, hr⟩ := fault?_node.mp hfault
  have hjoined : c.keyword.operator.setOperation.joined
      (right.linkedAt r sides s t (c.thresholds θ).2)
      (left.linkedAt r sides s t (c.thresholds θ).1) = _ :=
    SetOperation.joined_comm hc (linkedAt_unsigned hbest hr) (linkedAt_unsigned hbest hl)
  by_cases hsum : c.keyword = .add
  · have hswap : c.swap.keyword = .add := hsum
    rw [linkedAt_sum hsum, linkedAt_sum hswap, score?_swap hbest hc hfault, c.thresholds_swap, ← hjoined]
    rfl
  · have hswap : c.swap.keyword ≠ .add := hsum
    rw [linkedAt_of_not_sum hsum, linkedAt_of_not_sum hswap, c.thresholds_swap, ← hjoined]
    rfl

end Outline

/-! Names and texts of calls. -/

namespace Grammar

theorem isNameChar_toLower (c : Char) : isNameChar c.toLower = isNameChar c := by
  by_cases hc : c.isAlpha = true
  · simp [isNameChar, Char.isAlphanum, hc]
  · have hupper : ¬ c.isUpper = true := fun h => hc (by simp [Char.isAlpha, h])
    rw [Char.toLower_eq_of_not_isUpper hupper]

/-- Texts that differ in the case of letters only begin with names that do so, too. -/
theorem sameLetters_names {text text' : String} (h : Text.sameLetters text text' = true) :
    Text.sameLetters (String.ofList (text.toList.takeWhile isNameChar))
      (String.ofList (text'.toList.takeWhile isNameChar)) = true := by
  have hname (text : String) :
      Text.lowerLetters (String.ofList (text.toList.takeWhile isNameChar)) =
        String.ofList ((Text.lowerLetters text).toList.takeWhile isNameChar) := by
    simp only [Text.lowerLetters, String.toList_ofList, List.takeWhile_map]
    congr 3
    funext c
    exact (isNameChar_toLower c).symm
  simp only [Text.sameLetters, beq_iff_eq] at h ⊢
  rw [hname, hname, h]

end Grammar

/-- Calls have the names that their texts begin with. -/
def Outline.Named : Outline → Prop
  | leaf text call => call.measure = String.ofList (text.toList.takeWhile isNameChar)
  | node _ left right => left.Named ∧ right.Named

theorem Grammar.Spelling.Legible.named {w : Spelling} (h : w.Legible) : w.outline.Named := by
  induction w with
  | leaf name gap pieces =>
      obtain ⟨c, tail, htail, hc⟩ := h.blanks.startsClosing (c := '(') rfl (joined pieces ++ [')'])
      simp only [Spelling.outline, Outline.Named, Spelling.chars, String.toList_ofList]
      rw [htail, List.takeWhile_append_of_pos h.nameChars]
      simp [isClosing_not_nameChar hc]
  | node k word gap f left g right ihl ihr =>
      obtain ⟨-, ⟨-, hl⟩, -, hr⟩ := h
      exact ⟨ihl hl, ihr hr⟩

section

variable {r : Registry} {sides : Sides} {call call' : Call} {θ θ' : Float}

theorem Call.score?_congr (hmeasure : r.measure? call.measure = r.measure? call'.measure)
    (harguments : call.arguments = call'.arguments) :
    call.score? r sides = call'.score? r sides := by
  simp only [score?, hmeasure, harguments]

theorem Call.links_congr (hscore : call.score? r sides = call'.score? r sides) (hθ : θ == θ') :
    call.links r sides θ = call'.links r sides θ' := by
  simp only [links, hscore, Mapper.pairsAtLeast_congr hθ]

theorem reached_congr (hθ : θ == θ') : reached θ = reached θ' := by
  funext score
  simp only [reached, le_congr hθ]

end

/-! Outlines whose plans link alike. -/

/-- Compounds that join the results of their terms alike. Where scores count they have one keyword. -/
structure Compound.Matches (scored : Bool) (c d : Compound) : Prop where
  operator : c.keyword.operator = d.keyword.operator
  sum : c.keyword = .add ↔ d.keyword = .add
  keyword : scored = true → c.keyword = d.keyword
  coefficients : c.keyword = .add →
    c.left.coefficient = d.left.coefficient ∧ c.right.coefficient = d.right.coefficient

/-- Outlines that stand for equal specifications and agree in what these pass over: leaves have the same
arguments, sums the same coefficients, and nodes the same thresholds, where those below zero count as zero.
The terms of a compound may change places, unless one of them is taken away from the other. Below a sum
the scores count, too. -/
inductive Interchangeable : Bool → Outline → Float → Outline → Float → Prop
  | leaf {scored : Bool} {text text' : String} {call call' : Call} {θ θ' : Float}
      (hequal : Specification.ofCall text call θ == Specification.ofCall text' call' θ')
      (harguments : call.arguments = call'.arguments) (hθ : larger θ 0 == larger θ' 0) :
      Interchangeable scored (.leaf text call) θ (.leaf text' call') θ'
  | node {scored : Bool} {c d : Compound} {left right left' right' : Outline} {θ θ' : Float}
      (hmatches : c.Matches scored d) (hθ : larger θ 0 == larger θ' 0)
      (hleft : Interchangeable (scored || c.keyword = .add) left (c.thresholds θ).1
        left' (d.thresholds θ').1)
      (hright : Interchangeable (scored || c.keyword = .add) right (c.thresholds θ).2
        right' (d.thresholds θ').2) :
      Interchangeable scored (.node c left right) θ (.node d left' right') θ'
  | crossed {scored : Bool} {o left' right' : Outline} {d : Compound} {θ θ' : Float}
      (hd : d.keyword.operator.isCommutative = true)
      (h : Interchangeable scored o θ (.node d.swap right' left') θ') :
      Interchangeable scored o θ (.node d left' right') θ'

namespace Interchangeable

variable {r : Registry} {sides : Sides} {scored : Bool} {o o' : Outline} {θ θ' : Float}
  {text text' : String}

theorem threshold (h : Interchangeable scored o θ o' θ') : larger θ 0 == larger θ' 0 := by
  induction h with
  | leaf _ _ hθ => exact hθ
  | node _ hθ => exact hθ
  | crossed _ _ ih => exact ih

/-- Interchangeable outlines stand for equal specifications. -/
theorem same (h : Interchangeable scored o θ o' θ') :
    Specification.same (.ofOutline o θ) (.ofOutline o' θ') = true := by
  induction h with
  | leaf hequal _ _ => exact hequal
  | @node scored c d left right left' right' θ θ' hmatches _ _ _ ihl ihr =>
      refine (Specification.same_node (List.cons_ne_nil _ _) (List.cons_ne_nil _ _)).mpr
        ⟨?_, ?_, ?_, ?_⟩
      · exact congrArg some hmatches.operator
      · have hsum := hmatches.sum
        by_cases hc : c.keyword = .add
        · simp [hc, hsum.mp hc]
        · simp [hc, mt hsum.mpr hc]
      · simp [ihl, ihr]
      · simp [ihl, ihr]
  | @crossed scored o left' right' d θ θ' _ _ ih =>
      rw [Specification.same_comm] at ih ⊢
      rw [← ih]
      refine Specification.same_congr (List.cons_ne_nil _ _) (List.cons_ne_nil _ _) ?_ ?_ ?_ ?_ _
      · rfl
      · by_cases hd : d.keyword = .add
        · simp [hd, show d.swap.keyword = .add from hd]
        · simp [hd, show d.swap.keyword ≠ .add from hd]
      · simp [d.thresholds_swap]
      · simp [d.thresholds_swap]

end Interchangeable

/-- Thresholds that count as one are reached by the same scores. -/
theorem Score.reaches_congr {θ θ' s : Float} (hθ : θ.isFinite = true) (hθ' : θ'.isFinite = true)
    (h : larger θ 0 == larger θ' 0) (hs : 0 ≤ s) : θ ≤ s ↔ θ' ≤ s := by
  rw [← larger_zero_le_iff (number_of_finite hθ) hs, ← larger_zero_le_iff (number_of_finite hθ') hs,
    le_congr h]

/-- Matching compounds whose terms have thresholds that count as one combine scores alike. -/
theorem Scorer.combine_congr {c d : Compound} (h : c.Matches true d) {text text' : String}
    (hc : c.fault? text = none) (hd : d.fault? text' = none) {θ θ' : Float}
    (hleft : larger (c.thresholds θ).1 0 == larger (d.thresholds θ').1 0)
    (hright : larger (c.thresholds θ).2 0 == larger (d.thresholds θ').2 0) {s₁ s₂ : Float}
    (h₁ : 0 ≤ s₁) (h₂ : 0 ≤ s₂) : combine c s₁ s₂ = combine d s₁ s₂ := by
  obtain ⟨⟨hcl, hcr⟩, -⟩ := Compound.fault?_eq_none.mp hc
  obtain ⟨⟨hdl, hdr⟩, -⟩ := Compound.fault?_eq_none.mp hd
  have hkeyword := h.keyword rfl
  have hcoefficients := h.coefficients
  obtain ⟨k, left, right⟩ := c
  obtain ⟨k', left', right'⟩ := d
  obtain rfl : k = k' := hkeyword
  cases k with
  | and | or | xor | minus =>
      have hl := reaches_congr hcl hdl hleft h₁
      have hr := reaches_congr hcr hdr hright h₂
      simp only [combine, hl, hr]
  | min | max => rfl
  | add =>
      obtain ⟨hl, hr⟩ : left.coefficient = left'.coefficient ∧
          right.coefficient = right'.coefficient := hcoefficients rfl
      simp only [combine, hl, hr]

namespace Interchangeable

variable {r : Registry} {sides : Sides} {scored : Bool} {o o' : Outline} {θ θ' : Float}
  {text text' : String}

/-- Interchangeable calls have one measure. -/
theorem call_score?_eq {call call' : Call} (hname : (Outline.leaf text call).Named)
    (hname' : (Outline.leaf text' call').Named)
    (hequal : Specification.ofCall text call θ == Specification.ofCall text' call' θ')
    (harguments : call.arguments = call'.arguments) :
    call.score? r sides = call'.score? r sides := by
  have hletters : Text.sameLetters text text' = true := (Bool.and_eq_true_iff.mp hequal).1
  have hmeasure := r.measure?_congr (Grammar.sameLetters_names hletters)
  rw [← show call.measure = _ from hname, ← show call'.measure = _ from hname'] at hmeasure
  exact Call.score?_congr hmeasure harguments

/-- Where scores count, interchangeable outlines score alike. -/
theorem score?_eq (hbest : r.TakesBestPairs) (h : Interchangeable scored o θ o' θ')
    (hscored : scored = true) (hname : o.Named) (hname' : o'.Named) (hfault : o.fault? text = none)
    (hfault' : o'.fault? text' = none) : o.score? r sides = o'.score? r sides := by
  induction h generalizing text text' with
  | leaf hequal harguments _ => exact call_score?_eq hname hname' hequal harguments
  | @node scored c d left right left' right' θ θ' hmatches _ hleft hright ihl ihr =>
      subst hscored
      obtain ⟨hc, hfl, hfr⟩ := Outline.fault?_node.mp hfault
      obtain ⟨hd, hfl', hfr'⟩ := Outline.fault?_node.mp hfault'
      have hl := ihl rfl hname.1 hname'.1 hfl hfl'
      have hr := ihr rfl hname.2 hname'.2 hfr hfr'
      simp only [Outline.score?, ← hl, ← hr]
      cases hf : left.score? r sides with
      | none => simp
      | some f =>
          cases hg : right.score? r sides with
          | none => simp
          | some g =>
              simp only [Option.bind_some, Option.map_some]
              refine congrArg some (funext fun a => funext fun b => ?_)
              exact Scorer.combine_congr hmatches hc hd hleft.threshold hright.threshold
                (Outline.score?_unsigned hbest hfl hf a b).nonneg
                (Outline.score?_unsigned hbest hfr hg a b).nonneg
  | crossed hd _ ih =>
      rw [ih hscored hname hname'.symm hfault (Outline.fault?_swap hfault')]
      exact Outline.score?_swap hbest hd hfault'

/-- The plans of interchangeable outlines link alike. -/
theorem linkedAt_eq (hbest : r.TakesBestPairs) (h : Interchangeable scored o θ o' θ')
    (hname : o.Named) (hname' : o'.Named) (hfault : o.fault? text = none)
    (hfault' : o'.fault? text' = none) (s t : String) :
    o.linkedAt r sides s t θ = o'.linkedAt r sides s t θ' := by
  induction h generalizing text text' with
  | @leaf scored text text' call call' θ θ' hequal harguments hθ =>
      have hscore : call.score? r sides = call'.score? r sides :=
        call_score?_eq hname hname' hequal harguments
      simp only [Outline.linkedAt, Call.links_congr hscore hθ]
  | @node scored c d left right left' right' θ θ' hmatches hθ hleft hright ihl ihr =>
      obtain ⟨hc, hfl, hfr⟩ := Outline.fault?_node.mp hfault
      obtain ⟨hd, hfl', hfr'⟩ := Outline.fault?_node.mp hfault'
      have hl := ihl hname.1 hname'.1 hfl hfl'
      have hr := ihr hname.2 hname'.2 hfr hfr'
      by_cases hsum : c.keyword = .add
      · have hsum' := hmatches.sum.mp hsum
        -- below a sum the scores count
        have hscore : (Outline.node c left right).score? r sides =
            (Outline.node d left' right').score? r sides := by
          simp only [hsum, decide_true, Bool.or_true] at hleft hright
          have hscored : Interchangeable true (.node c left right) θ (.node d left' right') θ' :=
            .node ⟨hmatches.operator, hmatches.sum, fun _ => hsum.trans hsum'.symm,
              hmatches.coefficients⟩ hθ hleft hright
          exact score?_eq hbest hscored rfl hname hname' hfault hfault'
        rw [Outline.linkedAt_sum hsum, Outline.linkedAt_sum hsum', hl, hr, hmatches.operator, hscore]
        simp only [lt_congr hθ]
      · have hsum' := mt hmatches.sum.mpr hsum
        rw [Outline.linkedAt_of_not_sum hsum, Outline.linkedAt_of_not_sum hsum', hl, hr,
          hmatches.operator, reached_congr hθ]
  | crossed hd _ ih =>
      rw [ih hname hname'.symm hfault (Outline.fault?_swap hfault')]
      exact Outline.linkedAt_swap hbest hd hfault' s t _

end Interchangeable

namespace Engine

open Specification

/-- Texts that are read as interchangeable outlines stand for equal specifications. If their plans have
results, these link the same pairs with the same confidences. -/
theorem executeNested_interchangeable {text text' : String} {θ : Float} {o o' : Outline}
    (ho : Outline.parse text = .ok o) (ho' : Outline.parse text' = .ok o')
    (h : Interchangeable false o θ o' θ) {a b : Specification} (ha : parse text θ = .ok a)
    (hb : parse text' θ = .ok b) {sides : Sides} {ex ex' : Execution}
    (hex : (standard sides).executeNested a.plan = .ok ex)
    (hex' : (standard sides).executeNested b.plan = .ok ex') :
    a == b ∧ ∀ s t, ex.links.find? s t = ex'.links.find? s t := by
  obtain ⟨o, ho₁, hfault, rfl⟩ := parse_eq_ok.mp ha
  obtain rfl := Except.ok.inj (ho₁.symm.trans ho)
  obtain ⟨o', ho₂, hfault', rfl⟩ := parse_eq_ok.mp hb
  obtain rfl := Except.ok.inj (ho₂.symm.trans ho')
  obtain ⟨w, hw, rfl, -⟩ := exists_spelling ho
  obtain ⟨w', hw', rfl, -⟩ := exists_spelling ho'
  refine ⟨h.same, fun s t => ?_⟩
  rw [find?_of_executeNested Registry.standard_pairwise hw hfault hex,
    find?_of_executeNested Registry.standard_pairwise hw' hfault' hex']
  exact Interchangeable.linkedAt_eq Registry.standard_takesBestPairs h hw.named hw'.named hfault
    hfault' s t

/-- A sum, and the same sum with its terms in the other order and other letters in its names. -/
theorem executeNested_interchangeable_sample :
    let w := Spelling.sample .add ['a', 'd', 'd']
    ∃ text' o' a b ex ex', Outline.parse (String.ofList w.chars) = .ok w.outline ∧
      Outline.parse text' = .ok o' ∧ Interchangeable false w.outline 0.5 o' 0.5 ∧
      parse (String.ofList w.chars) 0.5 = .ok a ∧ parse text' 0.5 = .ok b ∧
      (standard sampleSides).executeNested a.plan = .ok ex ∧
      (standard sampleSides).executeNested b.plan = .ok ex' ∧ ex.links.contains "s" "t" ∧
      a == b ∧ ∀ s t, ex.links.find? s t = ex'.links.find? s t := by
  intro w
  have hw : w.WrittenOut := Spelling.sample_writtenOut rfl
  let links (w : Spelling) := ((standard sampleSides).executeNested (ofOutline w.outline 0.5).plan)
  have hlinks {w : Spelling} (h : (links w).toOption.any (·.links.contains "s" "t") = true) :
      ∃ ex, links w = .ok ex ∧ ex.links.contains "s" "t" := by
    cases hex : links w with
    | error fault => simp [hex, Except.toOption] at h
    | ok ex => exact ⟨ex, rfl, by simpa [hex, Except.toOption] using h⟩
  obtain ⟨w', hw', h, hlinked'⟩ : ∃ w' : Spelling, w'.WrittenOut ∧
      Interchangeable false w.outline 0.5 w'.outline 0.5 ∧
        (links w').toOption.any (·.links.contains "s" "t") = true := by
    obtain ⟨hk, hgap, ⟨hf, -, hnil, hl⟩, hg, -, hspace, hr⟩ := id hw
    refine ⟨.node .add ['A', 'D', 'D'] [] _ (.leaf "Trigrams".toList [' '] _) _
      (.leaf "EXACTMATCH".toList [] _), ⟨rfl, hnil, ⟨hg, ?_, hspace, hr⟩, hf, ?_, hnil, hl⟩, ?_, ?_⟩
    · exact ⟨by decide, List.all_eq_true.mp rfl, rfl⟩
    · exact ⟨by decide, List.all_eq_true.mp rfl, rfl⟩
    · refine .crossed rfl (.node ⟨rfl, Iff.rfl, fun _ => rfl, fun _ => ?_⟩ ?_ ?_ ?_)
      · decide +kernel
      · decide +kernel
      · exact .leaf (by decide +kernel) rfl (by decide +kernel)
      · exact .leaf (by decide +kernel) rfl (by decide +kernel)
    · decide +kernel
  obtain ⟨ho, ha⟩ := hw.parse_chars 0.5
  obtain ⟨ho', hb⟩ := hw'.parse_chars 0.5
  obtain ⟨ex, hex, hlinked⟩ := hlinks (w := w) (by decide +kernel)
  obtain ⟨ex', hex', -⟩ := hlinks hlinked'
  exact ⟨_, _, _, _, ex, ex', ho, ho', h, ha, hb, hex, hex', hlinked,
    executeNested_interchangeable ho ho' h ha hb hex hex'⟩

/-- The texts are read as equal specifications whose plans do not give the pair the same confidence. -/
def EqualApart (sides : Sides) (θ : Float) (s t text text' : String) : Prop :=
  ∃ a b ex ex', parse text θ = .ok a ∧ parse text' θ = .ok b ∧ a == b ∧
    (standard sides).executeNested a.plan = .ok ex ∧
      (standard sides).executeNested b.plan = .ok ex' ∧ ex.links.find? s t ≠ ex'.links.find? s t

/-- Carries the plans of two texts out to see whether they are `EqualApart`. -/
def equalApart (sides : Sides) (θ : Float) (s t text text' : String) : Bool :=
  match parse text θ, parse text' θ with
  | .ok a, .ok b =>
    match (standard sides).executeNested a.plan, (standard sides).executeNested b.plan with
    | .ok ex, .ok ex' => a == b && decide (ex.links.find? s t ≠ ex'.links.find? s t)
    | _, _ => false
  | _, _ => false

theorem equalApart_iff {sides : Sides} {θ : Float} {s t text text' : String} :
    equalApart sides θ s t text text' = true ↔ EqualApart sides θ s t text text' := by
  unfold equalApart EqualApart
  cases parse text θ with
  | error fault => simp
  | ok a =>
      cases parse text' θ with
      | error fault => simp
      | ok b =>
          cases hex : (standard sides).executeNested a.plan with
          | error fault => simp [hex]
          | ok ex => cases hex' : (standard sides).executeNested b.plan <;> simp [hex, hex']

instance (sides : Sides) (θ : Float) (s t text text' : String) :
    Decidable (EqualApart sides θ s t text text') :=
  decidable_of_iff _ equalApart_iff

/-- The call that compares the property in which the two sample entities agree. -/
def agreeing : String := "jaccard(a,a)"

/-- What equality passes over may decide what is linked: small differences of thresholds, the thresholds of
inner nodes, the coefficients of sums, the letter case of properties, the keywords below a sum, whose scores
count even where they are too small to link a pair, and which links are taken away from which. -/
theorem executeNested_equalApart :
    let apart := EqualApart sampleSides 0.5 "s" "t"
    apart s!"AND({agreeing}|1,{agreeing}|1)" s!"AND({agreeing}|1.0005,{agreeing}|1)" ∧
      apart s!"AND(OR({agreeing}|1,{agreeing}|1)|1,{agreeing}|1)"
        s!"AND(OR({agreeing}|1,{agreeing}|1)|2,{agreeing}|1)" ∧
      apart s!"ADD(0.5*{agreeing}|0,0.5*{agreeing}|0)"
        s!"ADD(0.5002*{agreeing}|0,0.5*{agreeing}|0)" ∧
      apart agreeing "jaccard(A,a)" ∧
      apart (s!"ADD(1*OR(ADD(0.3*MIN({agreeing}|0,{agreeing}|0)|0,0.7*{agreeing}|0)|1," ++
          s!"trigrams(b,b)|0)|0,1*{agreeing}|0)")
        (s!"ADD(1*OR(ADD(0.3*AND({agreeing}|1.0000000000000002,{agreeing}|1.0000000000000002)|0," ++
          s!"0.7*{agreeing}|0)|1,trigrams(b,b)|0)|0,1*{agreeing}|0)") ∧
      apart s!"MINUS({agreeing}|1,jaccard(b,b)|1)" s!"MINUS(jaccard(b,b)|1,{agreeing}|1)" := by
  -- each pair of texts is carried out on its own, so that no more than one is held in memory
  refine ⟨?_, ?_, ?_, ?_, ?_, ?_⟩
  · decide +kernel
  · decide +kernel
  · decide +kernel
  · decide +kernel
  · decide +kernel
  · decide +kernel

end Engine

end LinkDiscovery
