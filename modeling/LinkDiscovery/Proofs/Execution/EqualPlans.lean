import LinkDiscovery.Proofs.Double.Equality
import LinkDiscovery.Proofs.Execution.Locality
/-!
Equal plans are carried out alike. Equality of plans compares thresholds as numbers and passes over the
operation and the filter of a plan that has no plans below it; thresholds are only ever compared with
confidences, and such a plan does nothing but its instructions.
-/

namespace LinkDiscovery

open Score

/-! Thresholds that are equal as numbers. -/

/-- Equal optional values are missing together. -/
theorem rel_of_beq {α : Type} [BEq α] {x y : Option α} (h : x == y) :
    Option.Rel (fun a b => (a == b) = true) x y := by
  cases x with
  | none =>
      cases y with
      | none => exact .none
      | some b => cases h
  | some a =>
      cases y with
      | none => cases h
      | some b => exact .some h

section

variable {θ θ' : Float} (h : θ == θ')
include h

theorem Links.atLeast_congr (m : Links) : m.atLeast θ = m.atLeast θ' := by
  simp only [atLeast, le_congr h]

theorem Mapper.pairsAtLeast_congr (sides : Sides) (score : Entity → Entity → Float) :
    pairsAtLeast sides score θ = pairsAtLeast sides score θ' := by
  simp only [pairsAtLeast, le_congr h]

theorem Link.rescored_congr {main main' : Option Float} (hmain : main == main') (l : Link)
    (score : Float) : l.rescored score θ main = l.rescored score θ' main' := by
  simp only [rescored, lt_congr h]
  cases rel_of_beq hmain with
  | none => rfl
  | some hmain => simp only [le_congr hmain]

theorem Links.rescoreBy_congr {main main' : Option Float} (hmain : main == main') (m : Links)
    (r : Registry) (sides : Sides) (text : String) :
    m.rescoreBy r sides text θ main = m.rescoreBy r sides text θ' main' := by
  simp only [rescoreBy, rescore, Link.rescored_congr h hmain]

end

/-- Equal instructions differ at most in how their thresholds spell a number. -/
theorem Instruction.beq_iff {i j : Instruction} :
    (i == j) = true ↔ ∃ t m, j = { i with threshold := t, mainThreshold := m } ∧
      (i.threshold == t) = true ∧ (i.mainThreshold == m) = true := by
  obtain ⟨command, expression, threshold, main, source, target, result⟩ := i
  obtain ⟨command', expression', threshold', main', source', target', result'⟩ := j
  change instBEqInstruction.beq _ _ = true ↔ _
  simp only [instBEqInstruction.beq, Bool.and_eq_true, beq_iff_eq, Instruction.mk.injEq]
  constructor
  · rintro ⟨rfl, rfl, ht, hm, rfl, rfl, rfl⟩
    exact ⟨_, _, ⟨rfl, rfl, rfl, rfl, rfl, rfl, rfl⟩, ht, hm⟩
  · rintro ⟨t, m, ⟨rfl, rfl, rfl, rfl, rfl, rfl, rfl⟩, ht, hm⟩
    exact ⟨rfl, rfl, ht, hm, rfl, rfl, rfl⟩

theorem NestedPlan.length_eq_of_sameAll {ps qs : List NestedPlan} (h : sameAll ps qs = true) :
    ps.length = qs.length := by
  induction ps generalizing qs with
  | nil =>
      cases qs with
      | nil => rfl
      | cons q qs => simp [sameAll] at h
  | cons p ps ih =>
      cases qs with
      | nil => simp [sameAll] at h
      | cons q qs =>
          rw [sameAll, Bool.and_eq_true] at h
          rw [List.length_cons, List.length_cons, ih h.2]

namespace Engine

variable {e : Engine} {i j : Instruction}

theorem applyFilter_congr (h : i == j) (links : Links) (position : Option ℕ) :
    e.applyFilter i links position = e.applyFilter j links position := by
  obtain ⟨t, m, rfl, ht, hm⟩ := Instruction.beq_iff.mp h
  obtain ⟨command, expression, threshold, main, source, target, result⟩ := i
  cases rel_of_beq ht with
  | none => cases position <;> rfl
  | some ht => simp only [applyFilter, LinkFilter.atLeast_registry, LinkFilter.rescoreBy_registry,
      Links.atLeast_congr ht, Links.rescoreBy_congr ht hm]

theorem filterJoined_congr {f g : Option Instruction} (h : f == g) (links : Links) :
    e.filterJoined f links = e.filterJoined g links := by
  cases rel_of_beq h with
  | none => rfl
  | some h => exact applyFilter_congr h links none

section

variable (hr : e.registry.MapsPairwise)
include hr

theorem run_congr (h : i == j) (position : ℕ) : e.run i position = e.run j position := by
  obtain ⟨t, m, rfl, ht, -⟩ := Instruction.beq_iff.mp h
  obtain ⟨command, expression, threshold, main, source, target, result⟩ := i
  cases rel_of_beq ht with
  | none => rfl
  | some ht =>
      refine bind_congr fun text => ?_
      simp only [require, bind, Except.bind]
      cases Comparison.read text e.sides.sourceVar e.sides.targetVar with
      | error fault => cases fault <;> rfl
      | ok c =>
          simp only []
          cases hmapper : e.registry.mapper? c.measure with
          | none => rfl
          | some mapper =>
              obtain ⟨measure, rfl⟩ := hr _ _ hmapper
              simp only [Mapper.run, Mapper.pairsAtLeast_congr ht]

/-- A step carries equal instructions out alike. -/
theorem step_congr (h : i == j) (position : ℕ) (buffer : SlotBuffer) :
    e.step i position buffer = e.step j position buffer := by
  have hrun := run_congr hr h position
  have hfilter (links : Links) := applyFilter_congr (e := e) h links (some position)
  obtain ⟨t, m, rfl, -, -⟩ := Instruction.beq_iff.mp h
  obtain ⟨command, expression, threshold, main, source, target, result⟩ := i
  cases command with
  | run => exact hrun
  | filter =>
      refine bind_congr fun slot => ?_
      simp only [hfilter]
  | set o => rfl
  | yield => rfl

/-- A run carries equal instructions out alike, whatever has been carried out before. -/
theorem executeFrom_congr {is js : List Instruction} (h : is == js) (position : ℕ)
    (buffer : SlotBuffer) (warnings : List Warning) :
    e.executeFrom position buffer warnings is = e.executeFrom position buffer warnings js := by
  induction is generalizing js position buffer warnings with
  | nil =>
      cases js with
      | nil => rfl
      | cons j js => cases h
  | cons i is ih =>
      cases js with
      | nil => cases h
      | cons j js =>
          rw [List.cons_beq_cons, Bool.and_eq_true] at h
          obtain ⟨hij, h⟩ := h
          have hstep := step_congr hr hij position buffer
          obtain ⟨t, m, rfl, -, -⟩ := Instruction.beq_iff.mp hij
          simp only [executeFrom, hstep, ih h]

end

mutual

/-- Equal trees of plans come to the same fault, or to the same links and warnings. -/
theorem executeNested_same (hr : e.registry.MapsPairwise) : ∀ p q : NestedPlan, p.same q = true →
    e.executeNested p = e.executeNested q
  | .node is [] _ _, .node js [] _ _, h => by
      simp only [NestedPlan.same] at h
      simp only [executeNested, execute, executeTraced, executeFrom_congr hr h]
  | .node is (p :: ps) o f, .node js (q :: qs) o' f', h => by
      simp only [NestedPlan.same, Bool.and_eq_true] at h
      obtain ⟨⟨⟨ho, hf⟩, -⟩, hp, hps⟩ := h
      obtain rfl : o = o' := eq_of_beq ho
      have hlength := NestedPlan.length_eq_of_sameAll hps
      have hempty : ps.isEmpty = qs.isEmpty := by
        rw [Bool.eq_iff_iff, List.isEmpty_iff_length_eq_zero, List.isEmpty_iff_length_eq_zero,
          hlength]
      simp only [executeNested, executeNested_same hr p q hp, executeAll_same hr ps qs hps, hlength,
        hempty, filterJoined_congr hf]
  | .node _ [] _ _, .node _ (_ :: _) _ _, h => by simp [NestedPlan.same] at h
  | .node _ (_ :: _) _ _, .node _ [] _ _, h => by simp [NestedPlan.same] at h

theorem executeAll_same (hr : e.registry.MapsPairwise) : ∀ ps qs : List NestedPlan,
    NestedPlan.sameAll ps qs = true → e.executeAll ps = e.executeAll qs
  | [], [], _ => rfl
  | p :: ps, q :: qs, h => by
      rw [NestedPlan.sameAll, Bool.and_eq_true] at h
      simp only [executeAll, executeNested_same hr p q h.1, executeAll_same hr ps qs h.2]
  | [], _ :: _, h => by simp [NestedPlan.sameAll] at h
  | _ :: _, [], h => by simp [NestedPlan.sameAll] at h

end

/-- Equal trees of plans are carried out alike with mappers that score all pairs: both come to the same
fault, or to the same links with the same confidences and to the same warnings. -/
theorem executeNested_congr (hr : e.registry.MapsPairwise) {p q : NestedPlan} (h : p == q) :
    e.executeNested p = e.executeNested q :=
  executeNested_same hr p q h

/-- Of two equal trees the one has a zero with a sign, and an operation and a filter where there is
nothing to join. -/
theorem executeNested_congr_sample :
    let run (θ : Float) := Instruction.run "exactmatch(x.a,y.a)" θ
    let p := NestedPlan.node [] [.atomic [run 0], .atomic [.yield none]] (some .union)
      (some (.filtering 0))
    let q := NestedPlan.node [] [.node [run (-0)] [] (some .difference) (some (.filtering 1)),
      .atomic [.yield none]] (some .union) (some (.filtering (-0)))
    Registry.standard.MapsPairwise ∧ p == q ∧
      (standard sampleSides).executeNested p = (standard sampleSides).executeNested q := by
  intro run p q
  have hr := Registry.standard_pairwise.mapsPairwise
  have h : p == q := by decide
  exact ⟨hr, h, executeNested_congr (e := standard sampleSides) hr h⟩

end Engine

end LinkDiscovery
