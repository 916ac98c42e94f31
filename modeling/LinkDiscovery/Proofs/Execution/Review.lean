import LinkDiscovery.Configuration
import LinkDiscovery.Proofs.Execution.Cuts
import LinkDiscovery.Proofs.Links.Size
/-!
What a run leaves for review. A plan links no pair below the threshold of its root, so that the two
thresholds of a configuration divide the links of its plan among the two outputs without a rest.
-/

namespace LinkDiscovery

open Score

namespace Links

variable {m : Links} {θ acceptance : Float}

/-- What is scored anew reaches the threshold, as all scores are numbers. -/
theorem reaches_rescore {sides : Sides} {scorer : Scorer} (hθ : θ.isNaN = false)
    (hscore : ∀ a b, 0 ≤ scorer.score a b) (m : Links) :
    (m.rescore sides scorer θ none).Reaches θ := by
  intro s t c hc
  rw [find?_rescore] at hc
  obtain ⟨-, -, hc⟩ := Option.bind_eq_some_iff.mp hc
  simp only [Sides.onPair, Option.bind_eq_some_iff] at hc
  obtain ⟨a, -, b, -, hc⟩ := hc
  split at hc
  · cases hc
  · rename_i hlt
    obtain rfl := Option.some.inj hc
    exact (not_lt (number_of_le_right (hscore a b)) hθ).mp hlt

/-- Links in two parts: those that reach a threshold and the others, each with its confidence. -/
structure DividedAt (m accepted review : Links) (acceptance : Float) : Prop where
  find?_accepted : ∀ s t c, accepted.find? s t = some c ↔ m.find? s t = some c ∧ acceptance ≤ c
  find?_review : ∀ s t c, review.find? s t = some c ↔ m.find? s t = some c ∧ ¬ acceptance ≤ c
  size_add_size : accepted.size + review.size = m.size

/-- No link is lost where all of them reach the smaller threshold. -/
theorem split_divided (hm : m.Sized) (h : m.Reaches θ) (acceptance : Float) :
    m.DividedAt (m.split acceptance θ).1 (m.split acceptance θ).2 acceptance := by
  have haccepted (s t : String) :
      (m.split acceptance θ).1.find? s t = (m.find? s t).bind (reached acceptance) :=
    m.find?_atLeast acceptance
  have hreview (s t : String) : (m.split acceptance θ).2.find? s t =
      (m.find? s t).bind fun c => if acceptance ≤ c then none else some c := by
    simp only [split, find?_select]
    refine Option.bind_congr fun c hc => ?_
    simp only [h s t c hc, if_true]
  refine ⟨fun s t c => ?_, fun s t c => ?_,
    hm.size_add_size (sized_select _ _) (sized_select _ _) (fun s t => ?_) fun s t => ?_⟩
  · rw [haccepted]
    cases m.find? s t <;> simp [reached]; grind
  · rw [hreview]
    cases m.find? s t <;> simp; grind
  · rw [contains, contains, haccepted, hreview]
    cases m.find? s t <;> simp [reached]
  · rw [contains, contains, contains, haccepted, hreview]
    cases m.find? s t <;> simp [reached]; grind

end Links

/-- The thresholds of a configuration without faults. -/
theorem Configuration.thresholds_of_fault? {c : Configuration} (h : c.fault? = none) :
    0 ≤ c.verification ∧ c.verification ≤ c.acceptance ∧ c.acceptance ≤ 1 := by
  obtain ⟨-, ha, hv, hle, -⟩ := fault?_eq_none.mp h
  simp only [inUnit, Bool.and_eq_true, decide_eq_true_eq] at ha hv
  exact ⟨hv.1, (not_lt (number_of_le_left ha.2) (number_of_le_left hv.2)).mp hle, ha.2⟩

namespace Specification

theorem planThreshold_number (l : Label) : (planThreshold l).isNaN = false := by
  have hzero : (0 : Float).isNaN = false := number_of_le_left zero_nonneg
  unfold planThreshold larger
  split
  · exact hzero
  · rename_i h
    simp only [Bool.or_eq_true, not_or, Bool.not_eq_true] at h
    exact h.2

end Specification

/-- Compiled texts score with numbers from zero upwards. -/
theorem Registry.score_nonneg_of_compile {r : Registry} (hr : r.TakesBestPairs)
    {text sv tv : String} {scorer : Scorer} (h : r.compile text sv tv = .ok scorer) (a b : Entity) :
    0 ≤ scorer.score a b := by
  unfold compile at h
  split at h
  · cases h
  · exact Scorer.score_nonneg hr h a b

namespace Engine

open Specification

variable {e : Engine}

/-- The links of a run reach its threshold. -/
theorem run_reaches (hr : e.registry.MapsPairwise) {text : String} {θ : Float} {position : ℕ}
    {ex : Execution} (h : e.run (.run text θ) position = .ok ex) :
    ex.links.Reaches θ ∧ ex.links.Sized := by
  simp only [run, Instruction.run, require, bind, Except.bind, Mapper.run] at h
  cases hread : Comparison.read text e.sides.sourceVar e.sides.targetVar with
  | error fault => cases fault <;> simp [hread] at h
  | ok c =>
      simp only [hread] at h
      cases hmapper : e.registry.mapper? c.measure with
      | none =>
          simp only [hmapper] at h
          obtain rfl := Except.ok.inj h
          exact ⟨Links.reaches_empty, Links.sized_withPredicate _⟩
      | some mapper =>
          obtain ⟨m, rfl⟩ := hr _ _ hmapper
          simp only [hmapper] at h
          obtain rfl := Except.ok.inj h
          exact ⟨Mapper.reaches_pairsAtLeast, (Links.sized_withPredicate _).addAll _⟩

/-- The links that are left by the filter of a node reach the threshold of the node. -/
theorem applyFilter_reaches (hf : e.filterRegistry.TakesBestPairs) {l : Label} {links : Links}
    {ex : Execution} (h : e.applyFilter (planFilter l) links none = .ok ex) :
    ex.links.Reaches (planThreshold l) ∧ ex.links.Sized := by
  unfold planFilter at h
  cases hweights : l.weights with
  | none =>
      simp only [hweights, applyFilter_filtering] at h
      obtain rfl := Except.ok.inj h
      exact ⟨Links.reaches_atLeast _ _, Links.sized_select _ _⟩
  | some w =>
      simp only [hweights, applyFilter, Instruction.filteringBy, LinkFilter.rescoreBy_registry,
        Links.rescoreBy] at h
      split at h
      · cases h
      · obtain rfl := Except.ok.inj h
        exact ⟨Links.reaches_empty, Links.sized_withPredicate _⟩
      · rename_i hknown
        cases hcompile : e.filterRegistry.compile l.full e.sides.sourceVar e.sides.targetVar with
        | error fault => simp [hcompile] at h
        | ok scorer =>
            simp only [hcompile] at h
            obtain rfl := Except.ok.inj h
            have hscore := Registry.score_nonneg_of_compile hf hcompile
            exact ⟨Links.reaches_rescore (planThreshold_number l) hscore links,
              Links.sized_select _ _⟩

/-- The plan of a specification links no pair below the threshold of the specification, raised to
zero. -/
theorem executeNested_reaches (hr : e.registry.MapsPairwise)
    (hf : e.filterRegistry.TakesBestPairs) {s : Specification} {ex : Execution}
    (h : e.executeNested s.plan = .ok ex) :
    ex.links.Reaches (planThreshold s.label) ∧ ex.links.Sized := by
  obtain ⟨l, children⟩ := s
  cases children with
  | nil =>
      rw [plan] at h
      cases hfilter : l.filter with
      | none =>
          simp only [hfilter] at h
          obtain rfl := Except.ok.inj h
          exact ⟨Links.reaches_empty, Links.sized_withPredicate _⟩
      | some text =>
          simp only [hfilter, executeNested_run] at h
          exact run_reaches hr h
  | cons c cs =>
      simp only [plan, executeNested, filterJoined] at h
      split at h
      · cases h
      · simp only [bind_eq_ok] at h
        obtain ⟨left, -, others, -, result, hresult, hex⟩ := h
        obtain rfl := Except.ok.inj hex
        have hkept := applyFilter_reaches hf hresult
        exact hkept

/-- The links of a configured run reach the threshold of review, and its two outputs have them all:
the one output those that reach the threshold of acceptance and the other one those that do not, each
link with its confidence. -/
theorem executeNested_divided {c : Configuration} (hc : c.fault? = none) {source target : Collection}
    {s : Specification} (hs : parse c.metric c.verification = .ok s) {ex : Execution}
    (hex : (standard { source, target, sourceVar := c.source.var, targetVar := c.target.var
      }).executeNested s.plan = .ok ex) :
    ex.links.Reaches c.verification ∧
      ex.links.DividedAt (ex.links.split c.acceptance c.verification).1
        (ex.links.split c.acceptance c.verification).2 c.acceptance := by
  obtain ⟨hreaches, hsized⟩ := executeNested_reaches Registry.standard_pairwise.mapsPairwise
    Registry.standard_takesBestPairs hex
  obtain ⟨o, -, -, rfl⟩ := parse_eq_ok.mp hs
  have hpositive := (Configuration.thresholds_of_fault? hc).1
  have hverification : ex.links.Reaches c.verification := by
    have hlabel : planThreshold (ofOutline o c.verification).label = c.verification := by
      have hthreshold := ofOutline_threshold o c.verification
      rw [threshold] at hthreshold
      rw [planThreshold, hthreshold, larger_eq_left (number_of_le_right hpositive) hpositive]
    rwa [hlabel] at hreaches
  exact ⟨hverification, Links.split_divided hsized hverification c.acceptance⟩

/-- A configuration that scores with a sum. -/
def sampleConfiguration : Configuration where
  source := { id := "source", var := "?x" }
  target := { id := "target", var := "?y" }
  metric := "ADD(0.75*exactmatch(x.a,y.a)|0,0.25*exactmatch(x.b,y.b)|0)"
  acceptance := 0.9
  verification := 0.5
  acceptanceFile := none
  verificationFile := none

theorem executeNested_divided_sample :
    let c := sampleConfiguration
    let source := Collection.ofList [((Entity.ofUri "s").addProperty "a" "one").addProperty "b" "two"]
    let target := Collection.ofList [((Entity.ofUri "t").addProperty "a" "one").addProperty "b" "two",
      ((Entity.ofUri "u").addProperty "a" "one").addProperty "b" "twos"]
    let e := standard { source, target, sourceVar := c.source.var, targetVar := c.target.var }
    c.fault? = none ∧ ∃ s ex, parse c.metric c.verification = .ok s ∧
      e.executeNested s.plan = .ok ex ∧ ex.links.size = 2 ∧ ex.links.Reaches c.verification ∧
        ex.links.DividedAt (ex.links.split c.acceptance c.verification).1
          (ex.links.split c.acceptance c.verification).2 c.acceptance := by
  intro c source target e
  have hc : c.fault? = none := by decide +kernel
  have hsize : (((parse c.metric c.verification).toOption.bind fun s =>
      (e.executeNested s.plan).toOption).any fun ex => ex.links.size == 2) = true := by
    decide +kernel
  cases hs : parse c.metric c.verification with
  | error fault => simp [hs, Except.toOption] at hsize
  | ok s =>
      cases hex : e.executeNested s.plan with
      | error fault => simp [hs, hex, Except.toOption] at hsize
      | ok ex =>
          simp only [hs, hex, Except.toOption, Option.bind_some, Option.any_some, beq_iff_eq]
            at hsize
          exact ⟨hc, s, ex, rfl, hex, hsize, executeNested_divided hc hs hex⟩

end Engine

end LinkDiscovery
