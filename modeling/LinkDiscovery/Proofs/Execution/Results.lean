import LinkDiscovery.Proofs.Execution.Sums
import LinkDiscovery.Proofs.Specification.Rereading
/-!
What a plan that has a result gives to a pair of addresses, whichever measures are known and whatever the
collections are. A call whose measure is not known links nothing, and neither does a sum over one.
-/

namespace LinkDiscovery

open Double (IsUnsigned)
open Grammar Score

/-- What a call scores entities by: it has two arguments and a measure that is known. -/
def Call.score? (r : Registry) (sides : Sides) (call : Call) : Option (Entity → Entity → Float) :=
  match call.arguments, r.measure? call.measure with
  | [first, second], some m =>
    some (m.score (Path.property first sides.sourceVar) (Path.property second sides.targetVar))
  | _, _ => none

/-- The links of a call. -/
def Call.links (r : Registry) (sides : Sides) (call : Call) (θ : Float) : Links :=
  match call.score? r sides with
  | some score => Links.ofList (Mapper.pairsAtLeast sides score θ)
  | none => .empty

namespace Outline

/-- What an outline scores entities by, if all of its calls have a score. -/
def score? (r : Registry) (sides : Sides) : Outline → Option (Entity → Entity → Float)
  | leaf _ call => call.score? r sides
  | node c left right =>
    (left.score? r sides).bind fun f => (right.score? r sides).map fun g =>
      fun a b => Scorer.combine c (f a b) (g a b)

/-- The confidence that the plan of an outline with a threshold gives to a pair of addresses. -/
def linkedAt (r : Registry) (sides : Sides) (s t : String) : Outline → Float → Option Float
  | leaf _ call, θ => (call.links r sides (larger θ 0)).find? s t
  | node c left right, θ =>
    (c.keyword.operator.setOperation.joined (left.linkedAt r sides s t (c.thresholds θ).1)
        (right.linkedAt r sides s t (c.thresholds θ).2)).bind fun confidence =>
      if c.keyword = .add then
        ((node c left right).score? r sides).bind fun score => sides.onPair s t fun a b =>
          if score a b < larger θ 0 then none else some (score a b)
      else reached (larger θ 0) confidence

variable {r : Registry} {sides : Sides} {text : String}

section

variable {c : Compound} {left right : Outline} {s t : String} {θ : Float}

theorem linkedAt_sum (hc : c.keyword = .add) :
    (node c left right).linkedAt r sides s t θ =
      (c.keyword.operator.setOperation.joined (left.linkedAt r sides s t (c.thresholds θ).1)
          (right.linkedAt r sides s t (c.thresholds θ).2)).bind fun _ =>
        ((node c left right).score? r sides).bind fun score => sides.onPair s t fun a b =>
          if score a b < larger θ 0 then none else some (score a b) := by
  simp only [linkedAt, if_pos hc]

theorem linkedAt_of_not_sum (hc : c.keyword ≠ .add) :
    (node c left right).linkedAt r sides s t θ =
      (c.keyword.operator.setOperation.joined (left.linkedAt r sides s t (c.thresholds θ).1)
        (right.linkedAt r sides s t (c.thresholds θ).2)).bind (reached (larger θ 0)) := by
  simp only [linkedAt, if_neg hc]

end

theorem score?_of_resolve {o : Outline} {scorer : Scorer}
    (h : r.resolve sides.sourceVar sides.targetVar text o = .ok scorer) :
    o.score? r sides = some fun a b => scorer.score a b := by
  induction o generalizing text scorer with
  | leaf spelling call =>
      obtain ⟨first, second, m, harguments, hm, rfl⟩ := Registry.resolve_leaf.mp h
      simp only [score?, Call.score?, harguments, hm]
      rfl
  | node c left right ihl ihr =>
      obtain ⟨-, x, y, hx, hy, rfl⟩ := Registry.resolve_node.mp h
      simp only [score?, ihl hx, ihr hy, Option.bind_some, Option.map_some]
      rfl

/-- An outline with a measure that is not known has no score. -/
theorem score?_eq_none {o : Outline} {name : String} (hname : name ∈ o.measures)
    (hunknown : r.measure? name = none) : o.score? r sides = none := by
  induction o with
  | leaf spelling call =>
      obtain rfl := List.mem_singleton.mp hname
      simp [score?, Call.score?, hunknown]
  | node c left right ihl ihr =>
      rcases List.mem_append.mp hname with hname | hname
      · simp [score?, ihl hname]
      · simp [score?, ihr hname]

/-- The full text of a specification scores as the expression does. -/
theorem score?_canonical (w : Spelling) (θ : Float) :
    (w.canonical θ).outline.score? r sides = w.outline.score? r sides := by
  induction w generalizing θ with
  | leaf name gap pieces => rfl
  | node k word gap f left g right ihl ihr =>
      simp only [Spelling.canonical, Spelling.outline, score?, ihl, ihr]
      cases left.outline.score? r sides with
      | none => simp
      | some x =>
          cases right.outline.score? r sides with
          | none => simp
          | some y =>
              refine congrArg some ?_
              funext a b
              exact Spelling.combine_canonical k f left _ g right _ θ _ _ _ _

/-! Scores and confidences have no minus sign. -/

theorem score?_unsigned (hbest : r.TakesBestPairs) {o : Outline} (hfault : o.fault? text = none)
    {score : Entity → Entity → Float} (h : o.score? r sides = some score) (a b : Entity) :
    IsUnsigned (score a b) := by
  induction o generalizing text score with
  | leaf spelling call =>
      simp only [score?, Call.score?] at h
      split at h
      · rename_i hm
        obtain rfl := Option.some.inj h
        exact Measure.score_unsigned (hbest _ _ hm) _ _ a b
      · cases h
  | node c left right ihl ihr =>
      obtain ⟨hc, hl, hr⟩ := fault?_node.mp hfault
      simp only [score?, Option.bind_eq_some_iff, Option.map_eq_some_iff] at h
      obtain ⟨f, hf, g, hg, rfl⟩ := h
      exact Scorer.combine_unsigned hc (ihl hl hf) (ihr hr hg)

theorem joined_unsigned (o : SetOperation) {c d : Option Float} (hc : ∀ x ∈ c, IsUnsigned x)
    (hd : ∀ x ∈ d, IsUnsigned x) : ∀ x ∈ o.joined c d, IsUnsigned x := by
  cases c with
  | none => cases d <;> cases o <;> simp_all [SetOperation.joined]
  | some x =>
      cases d with
      | none => cases o <;> simp_all [SetOperation.joined]
      | some y =>
          have hx := hc x rfl
          have hy := hd y rfl
          have hmerged := Links.merged_some (number_of_le_right hx.nonneg) y
          have hsmaller := smaller_unsigned hx hy
          have hlarger := larger_unsigned (b := y) hx
          cases o <;> simp [SetOperation.joined, hmerged, hsmaller, hlarger]

theorem linkedAt_unsigned (hbest : r.TakesBestPairs) {o : Outline} (hfault : o.fault? text = none)
    {s t : String} {θ : Float} : ∀ x ∈ o.linkedAt r sides s t θ, IsUnsigned x := by
  induction o generalizing text θ with
  | leaf spelling call =>
      simp only [linkedAt, Call.links]
      cases hscore : call.score? r sides with
      | none => simp
      | some score =>
          refine Links.forall_find?_addAll (by simp) (fun l hl => ?_) s t
          obtain ⟨a, b, hconfidence, -⟩ := Mapper.confidence_of_mem_pairsAtLeast hl
          rw [hconfidence]
          exact score?_unsigned hbest (o := leaf spelling call) hfault hscore a b
  | node c left right ihl ihr =>
      obtain ⟨hc, hl, hr⟩ := fault?_node.mp hfault
      intro x hx
      by_cases hsum : c.keyword = .add
      · rw [linkedAt_sum hsum] at hx
        obtain ⟨-, -, hx⟩ := Option.bind_eq_some_iff.mp hx
        obtain ⟨score, hscore, hx⟩ := Option.bind_eq_some_iff.mp hx
        obtain ⟨a, -, hx⟩ := Option.bind_eq_some_iff.mp hx
        obtain ⟨b, -, hx⟩ := Option.bind_eq_some_iff.mp hx
        have hunsigned := score?_unsigned hbest hfault hscore a b
        simp only at hx
        split at hx
        · cases hx
        · obtain rfl := Option.some.inj hx
          exact hunsigned
      · rw [linkedAt_of_not_sum hsum] at hx
        obtain ⟨y, hy, hx⟩ := Option.bind_eq_some_iff.mp hx
        have hunsigned := joined_unsigned _ (ihl hl) (ihr hr) y hy
        unfold reached at hx
        split at hx
        · obtain rfl := Option.some.inj hx
          exact hunsigned
        · cases hx

end Outline

theorem Comparison.ofCall_eq_ok {text sv tv : String} {call : Call} {c : Comparison} :
    ofCall text call sv tv = .ok c ↔ ∃ first second, call.arguments = [first, second] ∧
      c = {
        measure := call.measure
        sourceProperty := Path.property first sv
        targetProperty := Path.property second tv } := by
  obtain ⟨name, arguments⟩ := call
  rcases arguments with _ | ⟨first, _ | ⟨second, _ | ⟨third, others⟩⟩⟩
  · simp [ofCall]
  · simp [ofCall]
  · constructor
    · intro h
      exact ⟨first, second, rfl, (Except.ok.inj h).symm⟩
    · rintro ⟨_, _, harguments, rfl⟩
      obtain ⟨rfl, rfl⟩ : first = _ ∧ second = _ := by simpa using harguments
      rfl
  · simp [ofCall]

namespace Engine

open Specification

variable {r : Registry} {sides : Sides} {w : Spelling} {text : String} {θ : Float}

/-- A run has a result only if its text is a comparison; it links the pairs that reach the threshold, or
nothing if the measure is not known. -/
theorem links_of_run (hr : r.Pairwise) {position : ℕ} {ex : Execution}
    (h : (ofRegistry sides r).run (.run text θ) position = .ok ex) :
    ∃ c, Comparison.read text sides.sourceVar sides.targetVar = .ok c ∧
      ex.links = match r.measure? c.measure with
        | some m => Links.ofList
            (Mapper.pairsAtLeast sides (m.score c.sourceProperty c.targetProperty) θ)
        | none => .empty := by
  simp only [run, Instruction.run, require, ofRegistry, bind, Except.bind, Mapper.run] at h
  cases hread : Comparison.read text sides.sourceVar sides.targetVar with
  | error fault => cases fault <;> simp [hread] at h
  | ok c =>
      have hmapper := hr c.measure
      refine ⟨c, rfl, ?_⟩
      cases hm : r.measure? c.measure with
      | none =>
          rw [hm, Option.map_none] at hmapper
          simp only [hread, hmapper] at h
          obtain rfl := Except.ok.inj h
          rfl
      | some m =>
          rw [hm, Option.map_some] at hmapper
          simp only [hread, hmapper] at h
          obtain rfl := Except.ok.inj h
          rfl

/-- A run of a call that has a result links what the call links. -/
theorem links_of_run_leaf (hr : r.Pairwise) {name gap : List Char} {pieces : List (List Char)}
    (hw : Spelling.LegibleLeaf name gap pieces) {position : ℕ} {ex : Execution}
    (h : (ofRegistry sides r).run
      (.run (String.ofList (Spelling.leaf name gap pieces).chars) θ) position = .ok ex) :
    ex.links = Call.links r sides
      { measure := String.ofList name, arguments := pieces.map argumentOf } θ := by
  obtain ⟨c, hread, hlinks⟩ := links_of_run hr h
  simp only [Comparison.read, call_read hw] at hread
  obtain ⟨first, second, harguments, rfl⟩ := Comparison.ofCall_eq_ok.mp hread
  rw [hlinks]
  simp only at harguments ⊢
  simp only [Call.links, Call.score?, harguments]
  cases r.measure? (String.ofList name) <;> rfl

/-- Links that are scored anew by a text that can be read. -/
theorem find?_applyFilter {o : Outline} (hread : Outline.read text = .ok o) {threshold : Float}
    {links : Links} {ex : Execution}
    (h : (ofRegistry sides r).applyFilter (.filteringBy text threshold) links none = .ok ex)
    (s t : String) :
    ex.links.find? s t = (links.find? s t).bind fun _ =>
      (o.score? r sides).bind fun score => sides.onPair s t fun a b =>
        if score a b < threshold then none else some (score a b) := by
  have hunresolved : r.unresolved text =
      .ok (o.measures.filter fun name => (r.measure? name).isNone) := by
    simp [Registry.unresolved_eq, hread, Except.map]
  obtain ⟨hparse, -⟩ := Outline.read_eq_ok.mp hread
  simp only [applyFilter, Instruction.filteringBy, ofRegistry, hunresolved,
    LinkFilter.rescoreBy_registry, Links.rescoreBy, Registry.compile, hparse] at h
  cases hunknown : o.measures.filter fun name => (r.measure? name).isNone with
  | cons name names =>
      have hname : name ∈ o.measures.filter fun name => (r.measure? name).isNone := by
        simp [hunknown]
      obtain ⟨hmem, hnone⟩ := List.mem_filter.mp hname
      simp only [hunknown] at h
      obtain rfl := Except.ok.inj h
      rw [Outline.score?_eq_none hmem (Option.isNone_iff_eq_none.mp hnone)]
      simp
  | nil =>
      simp only [hunknown] at h
      cases hscorer : r.resolve sides.sourceVar sides.targetVar (Text.trim text) o with
      | error fault => simp [hscorer] at h
      | ok scorer =>
          simp only [hscorer] at h
          obtain rfl := Except.ok.inj h
          rw [Outline.score?_of_resolve hscorer, Links.find?_rescore]
          rfl

/-- A plan that has a result gives each pair what its outline gives it. -/
theorem find?_of_executeNested (hr : r.Pairwise) (hw : w.Legible)
    (hfault : w.outline.fault? text = none) {ex : Execution}
    (h : (ofRegistry sides r).executeNested (ofOutline w.outline θ).plan = .ok ex) (s t : String) :
    ex.links.find? s t = w.outline.linkedAt r sides s t θ := by
  induction w generalizing text θ ex with
  | leaf name gap pieces =>
      have hrun := links_of_run_leaf hr hw ((executeNested_run _ _).symm.trans h)
      rw [hrun]
      rfl
  | node k word gap f left g right ihl ihr =>
      obtain ⟨-, ⟨-, hl⟩, -, hrl⟩ := id hw
      obtain ⟨-, hfl, hfr⟩ := Outline.fault?_node.mp hfault
      rw [Spelling.ofOutline_node, plan_ofCompound, ← Spelling.ofOutline_node k word gap,
        executeNested_join] at h
      simp only [bind_eq_ok] at h
      obtain ⟨exl, hexl, exr, hexr, result, hresult, hex⟩ := h
      obtain rfl := Except.ok.inj hex
      change result.links.find? s t = _
      have hjoined := SetOperation.find?_apply
        (Spelling.top k f left g right).keyword.operator.setOperation exl.links exr.links s t
      rw [ihl hl hfl hexl, ihr hrl hfr hexr] at hjoined
      by_cases hk : (Spelling.top k f left g right).keyword = .add
      · -- the filter has read the full text, which scores as the expression does
        rw [if_pos hk] at hresult
        obtain ⟨o, hread⟩ := read_of_applyFilter hresult
        have hagain := (read_full_iff hw hfault).mp ⟨o, hread⟩
        rw [find?_applyFilter (hagain.read_full hw hfault) hresult, hjoined,
          Outline.score?_canonical]
        exact (Outline.linkedAt_sum hk).symm
      · rw [if_neg hk, applyFilter_filtering] at hresult
        obtain rfl := Except.ok.inj hresult
        rw [Links.find?_atLeast, hjoined]
        exact (Outline.linkedAt_of_not_sum hk).symm

end Engine

end LinkDiscovery
