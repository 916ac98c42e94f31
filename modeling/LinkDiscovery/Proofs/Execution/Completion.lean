import LinkDiscovery.Proofs.Execution.Agreement
import LinkDiscovery.Proofs.Execution.Outcomes
import LinkDiscovery.Proofs.Specification.Rereading
/-!
Which plans come to an end. A measure that is not known only empties a result, and calls with two
arguments always run. What can stop the plan of an expression are the filters of its sums: they read
their full texts anew.
-/

namespace LinkDiscovery

open Grammar

/-- A run that has a result if and only if `P` holds, and is stopped by nothing but an expression that
cannot be read. -/
inductive CompletesIff {α : Type} (P : Prop) : Except Execution.Fault α → Prop where
  | ok (h : P) (a : α) : CompletesIff P (.ok a)
  | error (h : ¬ P) (fault : Expression.Fault) : CompletesIff P (.error (.expression fault))

namespace CompletesIff

variable {α β : Type} {P Q : Prop} {x : Except Execution.Fault α}

theorem bind {f : α → Except Execution.Fault β} (hx : CompletesIff P x)
    (hf : ∀ a, CompletesIff Q (f a)) : CompletesIff (P ∧ Q) (x >>= f) := by
  cases hx with
  | error h fault => exact .error (fun hpq => h hpq.1) fault
  | ok h a =>
      change CompletesIff (P ∧ Q) (f a)
      rw [and_iff_right h]
      exact hf a

theorem congr (h : CompletesIff P x) (hPQ : P ↔ Q) : CompletesIff Q x :=
  propext hPQ ▸ h

theorem result_iff (h : CompletesIff P x) : (∃ a, x = .ok a) ↔ P := by
  cases h with
  | ok h a => exact iff_of_true ⟨a, rfl⟩ h
  | error h fault => exact iff_of_false (by simp) h

theorem fault_eq (h : CompletesIff P x) {fault : Execution.Fault} (hx : x = .error fault) :
    ∃ f, fault = .expression f := by
  cases h with
  | ok h a => cases hx
  | error h f => exact ⟨f, (Except.error.inj hx).symm⟩

end CompletesIff

namespace Outline

/-- Every call of the outline has two arguments. -/
def ComparesPairs : Outline → Prop
  | leaf _ call => call.arguments.length = 2
  | node _ left right => left.ComparesPairs ∧ right.ComparesPairs

instance decidableComparesPairs : (o : Outline) → Decidable o.ComparesPairs
  | leaf _ call => inferInstanceAs (Decidable (call.arguments.length = 2))
  | node _ left right =>
    have := decidableComparesPairs left
    have := decidableComparesPairs right
    inferInstanceAs (Decidable (left.ComparesPairs ∧ right.ComparesPairs))

theorem comparesBy_of_known {r : Registry} {o : Outline} (ho : o.ComparesPairs)
    (hknown : ∀ name ∈ o.measures, (r.measure? name).isSome) : o.ComparesBy r := by
  induction o with
  | leaf text call => exact ⟨ho, hknown _ (by simp [measures])⟩
  | node c left right ihl ihr =>
      obtain ⟨hl, hr⟩ := List.forall_mem_append.mp hknown
      exact ⟨ihl ho.1 hl, ihr ho.2 hr⟩

theorem ComparesBy.comparesPairs {r : Registry} {o : Outline} (h : o.ComparesBy r) :
    o.ComparesPairs := by
  induction o with
  | leaf text call => exact h.1
  | node c left right ihl ihr => exact ⟨ihl h.1, ihr h.2⟩

theorem comparesPairs_canonical {w : Spelling} (hw : w.outline.ComparesPairs) (θ : Float) :
    (w.canonical θ).outline.ComparesPairs := by
  induction w generalizing θ with
  | leaf name gap pieces => exact hw
  | node k word gap f left g right ihl ihr => exact ⟨ihl hw.1 _, ihr hw.2 _⟩

end Outline

namespace Specification

/-- The full texts of all sums in a specification can be read again. -/
def SumsRereadable (s : Specification) : Prop :=
  ∀ t, IsNode t s → t.label.weights.isSome → t.Rereadable

theorem sumsRereadable_node {c : Compound} {left right : Outline} {θ : Float} :
    (ofOutline (.node c left right) θ).SumsRereadable ↔
      (c.keyword = .add → (ofOutline (.node c left right) θ).Rereadable) ∧
        (ofOutline left (c.thresholds θ).1).SumsRereadable ∧
          (ofOutline right (c.thresholds θ).2).SumsRereadable := by
  refine forall_nodes.trans (and_congr_left' ?_)
  by_cases hc : c.keyword = .add <;> simp [ofOutline, ofCompound, label, hc]

end Specification

namespace Engine

open Specification

variable {r : Registry} {sides : Sides} {w : Spelling} {text : String} {θ : Float}

/-- A run of a call with two arguments has a result, whether or not its measure is known. -/
theorem run_completes (hr : r.Pairwise) {c : Comparison}
    (hread : Comparison.read text sides.sourceVar sides.targetVar = .ok c) (threshold : Float)
    (position : ℕ) : ∃ ex, (ofRegistry sides r).run (.run text threshold) position = .ok ex := by
  have hmapper := hr c.measure
  cases hm : r.measure? c.measure with
  | none =>
      rw [hm, Option.map_none] at hmapper
      simp [run, require, Instruction.run, ofRegistry, hread, hmapper, bind, Except.bind, pure,
        Except.pure]
  | some m =>
      rw [hm, Option.map_some] at hmapper
      simp [run, require, Instruction.run, ofRegistry, hread, hmapper, Mapper.run, bind, Except.bind,
        pure, Except.pure]

theorem executeNested_leaf_completes (hr : r.Pairwise) {name gap : List Char}
    {pieces : List (List Char)} (hw : Spelling.LegibleLeaf name gap pieces)
    (hpairs : (Spelling.leaf name gap pieces).outline.ComparesPairs) (sides : Sides) (θ : Float) :
    ∃ ex, (ofRegistry sides r).executeNested
      (ofOutline (Spelling.leaf name gap pieces).outline θ).plan = .ok ex := by
  obtain ⟨first, second, harguments⟩ := List.length_eq_two.mp hpairs
  obtain ⟨ex, hex⟩ := run_completes hr (comparison_read hw harguments sides.sourceVar sides.targetVar)
    (Score.larger θ 0) 0
  exact ⟨ex, (executeNested_run _ _).trans hex⟩

/-- Links are scored anew by any expression that can be read and whose calls have two arguments. An
unknown measure empties the result. -/
theorem applyFilter_completes (r : Registry) (sides : Sides) {o : Outline}
    (hread : Outline.read text = .ok o) (ho : o.ComparesPairs) (threshold : Float) (links : Links) :
    ∃ ex, (ofRegistry sides r).applyFilter (.filteringBy text threshold) links none = .ok ex := by
  have hunresolved : r.unresolved text =
      .ok (o.measures.filter fun name => (r.measure? name).isNone) := by
    simp [Registry.unresolved_eq, hread, Except.map]
  cases hunknown : o.measures.filter fun name => (r.measure? name).isNone with
  | cons name names =>
      rw [hunknown] at hunresolved
      simp [applyFilter, Instruction.filteringBy, ofRegistry, hunresolved]
  | nil =>
      rw [hunknown] at hunresolved
      have hknown : ∀ name ∈ o.measures, (r.measure? name).isSome := fun name hname => by
        simpa [Option.isSome_iff_ne_none] using List.filter_eq_nil_iff.mp hunknown name hname
      obtain ⟨hparse, hfault⟩ := Outline.read_eq_ok.mp hread
      obtain ⟨scorer, hscorer⟩ := Registry.exists_resolve sides.sourceVar sides.targetVar
        (Outline.comparesBy_of_known ho hknown) hfault
      obtain ⟨hcompile, -⟩ := Registry.compile_read hparse hscorer
      exact ⟨_, applyFilter_filteringBy hunresolved hcompile⟩

/-- The filter of a sum has a result if and only if the full text of the sum can be read. -/
theorem applyFilter_full (hw : w.Legible) (hfault : w.outline.fault? text = none)
    (hpairs : w.outline.ComparesPairs) (threshold : Float) (links : Links) :
    CompletesIff (ofOutline w.outline θ).Rereadable ((ofRegistry sides r).applyFilter
      (.filteringBy (ofOutline w.outline θ).label.full threshold) links none) := by
  by_cases hagain : (ofOutline w.outline θ).Rereadable
  · obtain ⟨ex, hex⟩ := applyFilter_completes r sides (hagain.read_full hw hfault)
      (Outline.comparesPairs_canonical hpairs θ) threshold links
    exact hex ▸ .ok hagain ex
  · cases hread : Outline.read (ofOutline w.outline θ).label.full with
    | ok o => exact absurd ((read_full_iff hw hfault).mp ⟨o, hread⟩) hagain
    | error fault =>
        simp only [applyFilter, Instruction.filteringBy, ofRegistry, Registry.unresolved_eq, hread,
          Except.map]
        exact .error hagain fault

theorem executeNested_join_completesIff {e : Engine} {p q : NestedPlan} {o : SetOperation}
    {f : Instruction} {P Q F : Prop} (hp : CompletesIff P (e.executeNested p))
    (hq : CompletesIff Q (e.executeNested q))
    (hf : ∀ links, CompletesIff F (e.applyFilter f links none)) :
    CompletesIff (P ∧ Q ∧ F) (e.executeNested (.node [] [p, q] (some o) (some f))) := by
  rw [executeNested_join]
  refine hp.bind fun left => hq.bind fun right => ?_
  have hfilter := (hf (o.apply left.links right.links)).bind fun result =>
    CompletesIff.ok trivial ({
      links := result.links
      warnings := left.warnings ++ right.warnings ++ result.warnings } : Execution)
  exact hfilter.congr (and_iff_left trivial)

/-- The canonical plan of an expression has a result if and only if its sums can be read again. -/
theorem executeNested_completesIff (hr : r.Pairwise) (sides : Sides) (hw : w.Legible)
    (hfault : w.outline.fault? text = none) (hpairs : w.outline.ComparesPairs) :
    CompletesIff (ofOutline w.outline θ).SumsRereadable
      ((ofRegistry sides r).executeNested (ofOutline w.outline θ).plan) := by
  induction w generalizing text θ with
  | leaf name gap pieces =>
      obtain ⟨ex, hex⟩ := executeNested_leaf_completes hr hw hpairs sides θ
      have hsums : (ofOutline (Spelling.leaf name gap pieces).outline θ).SumsRereadable :=
        forall_nodes_leaf.mpr fun h => by cases h
      exact hex ▸ .ok hsums ex
  | node k word gap f left g right ihl ihr =>
      obtain ⟨-, ⟨-, hl⟩, -, hrl⟩ := id hw
      obtain ⟨-, hfl, hfr⟩ := Outline.fault?_node.mp hfault
      obtain ⟨hpl, hpr⟩ := id hpairs
      refine CompletesIff.congr ?_ sumsRereadable_node.symm
      rw [Spelling.ofOutline_node, plan_ofCompound, ← Spelling.ofOutline_node k word gap]
      refine (executeNested_join_completesIff (ihl hl hfl hpl) (ihr hrl hfr hpr) fun links =>
        ?_).congr (and_rotate.trans and_rotate)
      by_cases hk : (Spelling.top k f left g right).keyword = .add
      · rw [if_pos hk]
        exact (applyFilter_full hw hfault hpairs _ links).congr
          ⟨fun h _ => h, fun h => h hk⟩
      · -- without an expression to read, a filter always has a result
        rw [if_neg hk]
        exact .ok (fun hadd => absurd hadd hk) _

/-- For an expression that compares two properties at a time, whatever its measures are, the canonical
plan has a result if and only if the full texts of all sums can be read again. Nothing but such a text
stops it, and a full text can be read again if and only if all thresholds below the root are finite and
no number is cut short at the beginning of an expression that has lost its coefficient. -/
theorem executeNested_completes_iff (sides : Sides) {s : Specification} {o : Outline}
    (hs : parse text θ = .ok s) (ho : Outline.parse text = .ok o) (hpairs : o.ComparesPairs) :
    ((∃ ex, (standard sides).executeNested s.plan = .ok ex) ↔ s.SumsRereadable) ∧
      (∀ fault, (standard sides).executeNested s.plan = .error fault →
        ∃ f, fault = .expression f) ∧
      ∀ t, IsNode t s → ((∃ o, Outline.read t.label.full = .ok o) ↔ t.Rereadable) := by
  obtain ⟨o', ho', hfault, rfl⟩ := parse_eq_ok.mp hs
  obtain rfl : o' = o := Except.ok.inj (ho'.symm.trans ho)
  obtain ⟨w, hw, rfl, -⟩ := exists_spelling ho
  have hrun := executeNested_completesIff Registry.standard_pairwise sides hw hfault hpairs (θ := θ)
  exact ⟨hrun.result_iff, fun fault => hrun.fault_eq, read_node_iff hw hfault⟩

theorem executeNested_completes_iff_sample :
    let w := Spelling.sample .add ['A', 'd', 'd']
    let s := w.tree 0.5
    parse (String.ofList w.chars) 0.5 = .ok s ∧ Outline.parse (String.ofList w.chars) = .ok w.outline ∧
      w.outline.ComparesPairs ∧
        ((∃ ex, (standard sampleSides).executeNested s.plan = .ok ex) ↔ s.SumsRereadable) ∧
          (∀ fault, (standard sampleSides).executeNested s.plan = .error fault →
            ∃ f, fault = .expression f) ∧
          ∀ t, IsNode t s → ((∃ o, Outline.read t.label.full = .ok o) ↔ t.Rereadable) := by
  intro w s
  have hw : w.WrittenOut := Spelling.sample_writtenOut rfl
  obtain ⟨ho, hs⟩ := hw.parse_chars 0.5
  rw [Spelling.ofOutline_eq_tree] at hs
  exact ⟨hs, ho, ⟨rfl, rfl⟩, executeNested_completes_iff sampleSides hs ho ⟨rfl, rfl⟩⟩

/-- Whether a text is read as an expression that compares two properties at a time, and its canonical
plan is stopped by a text that cannot be read. -/
def stops (sides : Sides) (text : String) (θ : Float) : Bool :=
  match parse text θ, Outline.parse text with
  | .ok s, .ok o =>
    match (standard sides).executeNested s.plan with
    | .error (.expression _) => decide o.ComparesPairs
    | _ => false
  | _, _ => false

theorem stops_iff {sides : Sides} : stops sides text θ = true ↔
    ∃ s o fault, parse text θ = .ok s ∧ Outline.parse text = .ok o ∧ o.ComparesPairs ∧
      (standard sides).executeNested s.plan = .error (.expression fault) := by
  unfold stops
  cases parse text θ with
  | error fault => simp
  | ok s =>
      cases Outline.parse text with
      | error fault => simp
      | ok o =>
          cases hex : (standard sides).executeNested s.plan with
          | ok ex => simp [hex]
          | error fault => cases fault <;> simp [hex]

/-- Two expressions that can be read and whose plans are stopped: the thresholds of the terms of the one
are quotients of a finite threshold and a small coefficient, which are infinite; in the full text of
the other no coefficient stands in front of the name `3e` anymore, which begins like a number. -/
theorem executeNested_stopped :
    (∃ s o fault,
        parse "ADD(0.01*exactmatch(x.a,y.a)|0,0.01*exactmatch(x.a,y.a)|0)" 1e308 = .ok s ∧
          Outline.parse "ADD(0.01*exactmatch(x.a,y.a)|0,0.01*exactmatch(x.a,y.a)|0)" = .ok o ∧
          o.ComparesPairs ∧
            (standard sampleSides).executeNested s.plan = .error (.expression fault)) ∧
      ∃ s o fault,
        parse "ADD(1*AND(1*3e(x.a,y.a)|0.5,exactmatch(x.a,y.a)|0.5)|0,1*exactmatch(x.a,y.a)|0)" 0.5 =
            .ok s ∧
          Outline.parse
              "ADD(1*AND(1*3e(x.a,y.a)|0.5,exactmatch(x.a,y.a)|0.5)|0,1*exactmatch(x.a,y.a)|0)" =
            .ok o ∧
          o.ComparesPairs ∧
            (standard sampleSides).executeNested s.plan = .error (.expression fault) := by
  simp only [← stops_iff]
  decide +kernel

end Engine

end LinkDiscovery
