import LinkDiscovery.Proofs.Execution.Support
import LinkDiscovery.Proofs.Grammar.Mirror
import LinkDiscovery.Proofs.Links.Reversal
/-!
Source and target exchanged. When the arguments of all calls are exchanged along with the collections and
their variables, an expression by standard measures links the same pairs the other way round.
-/

namespace LinkDiscovery

open Grammar Score

namespace Sides

/-- The two collections and their variables, exchanged. -/
def swapped (sides : Sides) : Sides where
  source := sides.target
  target := sides.source
  sourceVar := sides.targetVar
  targetVar := sides.sourceVar

theorem onPair_swapped (sides : Sides) (s t : String) (f : Entity → Entity → Option Float) :
    sides.swapped.onPair t s f = sides.onPair s t fun a b => f b a :=
  Option.bind_comm _ _

end Sides

/-- All measures are at most one and the same in both directions, for sets as for texts. -/
structure Registry.Balanced (r : Registry) : Prop where
  takesBestPairs : r.TakesBestPairs
  bounded : ∀ name m, r.measure? name = some m → m.Bounded
  symmetric : ∀ name m, r.measure? name = some m → m.Symmetric

theorem Registry.standard_balanced : standard.Balanced where
  takesBestPairs := standard_takesBestPairs
  bounded _ _ := standard_bounded
  symmetric _ _ := standard_symmetric

theorem Registry.Balanced.score_comm {r : Registry} (hr : r.Balanced) {name : String} {m : Measure}
    (hm : r.measure? name = some m) (p q : String) (a b : Entity) :
    m.score p q a b = m.score q p b a :=
  Measure.score_comm (hr.takesBestPairs _ m hm) (hr.bounded _ m hm) (hr.symmetric _ m hm) p q a b

variable {r : Registry} {sides : Sides} {w w' : Spelling} {s t text : String} {θ : Float}

/-- What a call supports for a pair, the call with its arguments exchanged supports for the pair the
other way round. -/
theorem Call.supports_swapped (hr : r.Balanced) {call call' : Call} {x : Float}
    (hmeasure : call'.measure = call.measure)
    (harguments : call'.arguments = call.arguments.reverse)
    (h : Supports ((call.links r sides θ).find? s t) x) :
    Supports ((call'.links r sides.swapped θ).find? t s) x := by
  obtain ⟨first, second, m, hpair, hm, a, ha, b, hb, hs, ht, hscore⟩ :=
    (supports_links hr.takesBestPairs).mp h
  rw [hr.score_comm hm] at hscore
  exact (supports_links hr.takesBestPairs).mpr ⟨second, first, m, by simp [harguments, hpair],
    hmeasure ▸ hm, b, hb, a, ha, ht, hs, hscore⟩

namespace Outline

theorem score?_mirrors (sides : Sides) (hr : r.Balanced) (h : w.Mirrors w') :
    w'.outline.score? r sides.swapped = (w.outline.score? r sides).map fun f a b => f b a := by
  induction h with
  | leaf name gap hp hq =>
      simp only [Spelling.outline, score?, Call.score?, List.map_cons, List.map_nil, argumentOf, hp, hq]
      cases hm : r.measure? (String.ofList name) with
      | none => rfl
      | some m =>
          refine congrArg some ?_
          funext a b
          exact hr.score_comm hm _ _ a b
  | node k word gap f g _ _ ihl ihr =>
      simp only [Spelling.outline, score?, ihl, ihr]
      cases Outline.score? r sides _ with
      | none => rfl
      | some x => cases Outline.score? r sides _ <;> rfl

/-- The plan of a mirrored expression gives a pair what the plan of the expression gives it the other way
round. -/
theorem linkedAt_mirrors (hr : r.Balanced) (h : w.Mirrors w')
    (hfault : w.outline.fault? text = none) :
    w'.outline.linkedAt r sides.swapped t s θ = w.outline.linkedAt r sides s t θ := by
  induction h generalizing text θ with
  | @leaf name gap p q p' q' hp hq =>
      have hfault' : (Spelling.leaf name gap [p', q']).outline.fault? text = none := rfl
      refine eq_of_supports_iff (linkedAt_unsigned hr.takesBestPairs hfault')
        (linkedAt_unsigned hr.takesBestPairs hfault) fun x => ?_
      constructor
      · exact Call.supports_swapped hr rfl (by simp [argumentOf, hp, hq])
      · exact Call.supports_swapped hr rfl (by simp [argumentOf, hp, hq])
  | @node k word gap f g left left' right right' hleft hright ihl ihr =>
      obtain ⟨-, hl, hrt⟩ := fault?_node.mp hfault
      have hthresholds := Specification.thresholds_top k f left left' g right right' θ
      have hscore := score?_mirrors sides hr (.node k word gap f g hleft hright)
      simp only [Spelling.outline, Spelling.top] at hscore hthresholds ⊢
      by_cases hk : k = .add
      · rw [linkedAt_sum hk, linkedAt_sum hk, hscore, hthresholds, ihl hl, ihr hrt]
        simp only [Option.bind_map, Function.comp_def, Sides.onPair_swapped]
      · rw [linkedAt_of_not_sum hk, linkedAt_of_not_sum hk, hthresholds, ihl hl, ihr hrt]

end Outline

theorem SetOperation.predicate_apply (o : SetOperation) (m other : Links) :
    (o.apply m other).predicate = m.predicate := by
  cases o with
  | union => exact Links.predicate_union m other
  | intersection | difference => exact Links.predicate_select ..
  | symmetricDifference => exact (Links.predicate_union ..).trans (Links.predicate_select ..)

namespace Engine

open Specification

theorem regular_applyFilter {e : Engine} {i : Instruction} {links : Links} {position : Option ℕ}
    {ex : Execution} (h : e.applyFilter i links position = .ok ex)
    (hlinks : links.predicate = Links.sameAs) :
    ex.links.Regular ∧ ex.links.predicate = Links.sameAs := by
  unfold applyFilter at h
  split at h
  · cases h
  · cases h
  · split at h
    · obtain rfl := Except.ok.inj h
      exact ⟨Links.regular_select _ _, (Links.predicate_select ..).trans hlinks⟩
    · split at h
      · cases h
      · obtain rfl := Except.ok.inj h
        exact ⟨Links.regular_withPredicate _, rfl⟩
      · simp only [LinkFilter.rescoreBy_registry, Links.rescoreBy] at h
        split at h
        · rename_i heq
          split at heq
          · cases heq
          · obtain rfl := Except.ok.inj heq
            obtain rfl := Except.ok.inj h
            exact ⟨Links.regular_select _ _, (Links.predicate_select ..).trans hlinks⟩
        · cases h

/-- What a plan links has the usual predicate and no empty rows. -/
theorem regular_of_executeNested (hr : r.Pairwise) (hw : w.Legible) {ex : Execution}
    (h : (ofRegistry sides r).executeNested (ofOutline w.outline θ).plan = .ok ex) :
    ex.links.Regular ∧ ex.links.predicate = Links.sameAs := by
  induction w generalizing θ ex with
  | leaf name gap pieces =>
      rw [links_of_run_leaf hr hw ((executeNested_run _ _).symm.trans h), Call.links]
      split
      · exact ⟨Links.regular_ofList _, Links.predicate_addAll ..⟩
      · exact ⟨Links.regular_withPredicate _, rfl⟩
  | node k word gap f left g right ihl ihr =>
      rw [Spelling.ofOutline_node, plan_ofCompound, executeNested_join] at h
      simp only [bind_eq_ok] at h
      obtain ⟨exl, hexl, exr, hexr, result, hresult, hex⟩ := h
      obtain rfl := Except.ok.inj hex
      have hjoined := (SetOperation.predicate_apply
        (Spelling.top k f left g right).keyword.operator.setOperation exl.links exr.links).trans
          (ihl hw.2.1.2 hexl).2
      change result.links.Regular ∧ result.links.predicate = Links.sameAs
      exact regular_applyFilter hresult hjoined

theorem parse_eq_ok_of_spelling (hw : w.Legible) (htext : Text.trimChars text.toList = w.chars)
    {s : Specification} : parse text θ = .ok s ↔
      w.outline.fault? (Text.trim text) = none ∧ s = ofOutline w.outline θ := by
  rw [parse_eq_ok, parse_spelling hw htext]
  simp

/-- Exchanging source and target reverses the links. For a text whose calls have two arguments and a
standard measure, there are texts in which the two arguments of each call are exchanged and all else is
spelled alike. Such a text can be read if the first one can; its canonical plan has a result for the
exchanged collections and variables if that of the first one has a result for the collections as they
are, and then it has the same links reversed, whatever the threshold is. -/
theorem executeNested_mirrored {o : Outline} (ho : Outline.parse text = .ok o)
    (hcalls : o.ComparesBy .standard) :
    (∃ text', Mirrored text text') ∧ ∀ text', Mirrored text text' → ∀ (sides : Sides) (θ : Float),
      ((∃ s', parse text' θ = .ok s') ↔ ∃ s, parse text θ = .ok s) ∧
        ∀ s s', parse text θ = .ok s → parse text' θ = .ok s' →
          ((∃ ex', (standard sides.swapped).executeNested s'.plan = .ok ex') ↔
            ∃ ex, (standard sides).executeNested s.plan = .ok ex) ∧
          ∀ ex ex', (standard sides).executeNested s.plan = .ok ex →
            (standard sides.swapped).executeNested s'.plan = .ok ex' →
              ex'.links = ex.links.reverse := by
  have hr := Registry.standard_pairwise
  refine ⟨exists_mirrored ho hcalls, ?_⟩
  rintro text' ⟨w, w', hw, hmirrors, htext, htext'⟩ sides θ
  obtain rfl : w.outline = o := Except.ok.inj ((parse_spelling hw htext).symm.trans ho)
  have hw' := hmirrors.legible hw hcalls
  have hcalls' := hmirrors.comparesBy hcalls
  simp only [parse_eq_ok_of_spelling hw htext, parse_eq_ok_of_spelling hw' htext']
  refine ⟨⟨?_, ?_⟩, ?_⟩
  · rintro ⟨s', hfault, -⟩
    exact ⟨_, hmirrors.symm.fault?_eq_none hfault _, rfl⟩
  · rintro ⟨s, hfault, -⟩
    exact ⟨_, hmirrors.fault?_eq_none hfault _, rfl⟩
  · rintro _ _ ⟨hfault, rfl⟩ ⟨hfault', rfl⟩
    have hcompletes := executeNested_completesIff hr sides hw hfault hcalls.comparesPairs (θ := θ)
    have hcompletes' := executeNested_completesIff hr sides.swapped hw' hfault' hcalls'.comparesPairs
      (θ := θ)
    refine ⟨hcompletes'.result_iff.trans (Iff.trans ⟨?_, ?_⟩ hcompletes.result_iff.symm),
      fun ex ex' hex hex' => ?_⟩
    · exact sumsRereadable_mirrors hmirrors.symm hw hcalls
    · exact sumsRereadable_mirrors hmirrors hw' hcalls'
    · obtain ⟨hregular, hpredicate⟩ := regular_of_executeNested hr hw hex
      obtain ⟨hregular', hpredicate'⟩ := regular_of_executeNested hr hw' hex'
      refine hregular'.ext ex.links.regular_reverse ?_ fun t s => ?_
      · rw [hpredicate', Links.predicate_reverse, hpredicate]
      · rw [Links.find?_reverse, find?_of_executeNested hr hw hfault hex,
          find?_of_executeNested hr hw' hfault' hex']
        exact Outline.linkedAt_mirrors Registry.standard_balanced hmirrors hfault

theorem executeNested_mirrored_sample :
    let w := Spelling.sample .add ['A', 'd', 'd']
    let text := String.ofList w.chars
    let text' := String.ofList w.mirrored.chars
    Outline.parse text = .ok w.outline ∧ w.outline.ComparesBy .standard ∧ Mirrored text text' ∧
      ∃ s s' ex ex', parse text 0.75 = .ok s ∧ parse text' 0.75 = .ok s' ∧
        (standard sampleSides).executeNested s.plan = .ok ex ∧
          (standard sampleSides.swapped).executeNested s'.plan = .ok ex' ∧
            ex'.links = ex.links.reverse := by
  intro w text text'
  have hw : w.WrittenOut := Spelling.sample_writtenOut rfl
  obtain ⟨ho, hs⟩ := hw.parse_chars 0.75
  have hcalls : w.outline.ComparesBy .standard := ⟨⟨rfl, rfl⟩, rfl, rfl⟩
  have hmirrored : Mirrored text text' := hw.legible.mirrored hcalls (by simp [hw.legible.trim, text])
  obtain ⟨hparse, hlinks⟩ := (executeNested_mirrored ho hcalls).2 text' hmirrored sampleSides 0.75
  obtain ⟨s', hs'⟩ := hparse.mpr ⟨_, hs⟩
  obtain ⟨hcompletes, hreverse⟩ := hlinks _ s' hs hs'
  have hfinite : (ofOutline w.outline 0.75).FiniteBelow :=
    finiteBelow_node.mpr ⟨forall_nodes_leaf.mpr rfl, forall_nodes_leaf.mpr rfl⟩
  have hsums : (ofOutline w.outline 0.75).SumsRereadable :=
    sumsRereadable_node.mpr ⟨fun _ => ⟨hfinite, (bareTerms_iff hw.legible).mp
      (Spelling.bareTerms_of_standard hw.legible hcalls)⟩, forall_nodes_leaf.mpr nofun,
      forall_nodes_leaf.mpr nofun⟩
  obtain ⟨ex, hex⟩ := (executeNested_completesIff Registry.standard_pairwise sampleSides hw.legible
    (hw.fault? text) hcalls.comparesPairs).result_iff.mpr hsums
  obtain ⟨ex', hex'⟩ := hcompletes.mpr ⟨ex, hex⟩
  exact ⟨ho, hcalls, hmirrored, _, s', ex, ex', hs, hs', hex, hex', hreverse ex ex' hex hex'⟩

end Engine

end LinkDiscovery
