import LinkDiscovery.Proofs.Execution.Results
import LinkDiscovery.Proofs.Links.Lattice
import LinkDiscovery.Proofs.Measure.Similarity
/-!
Links by what they support: the numbers that the confidence of a pair reaches. A list of links supports
what one of its members supports, however often and in whichever order it names a pair, and a mapper
supports what the scores of two entities support. Entities may share an address here.
-/

namespace LinkDiscovery

open Double (IsUnsigned)
open Score

namespace Score

/-- There is a score, and it reaches `x`. -/
def Supports (c : Option Float) (x : Float) : Prop :=
  ∃ d ∈ c, x ≤ d

variable {c d : Option Float} {x θ : Float}

@[simp]
theorem supports_none : ¬ Supports none x := by
  rintro ⟨d, hd, -⟩
  cases hd

@[simp]
theorem supports_some {a : Float} : Supports (some a) x ↔ x ≤ a := by
  simp [Supports]

theorem supports_merged (hc : ∀ a ∈ c, a.isNaN = false) :
    Supports (Links.merged c d) x ↔ Supports c x ∨ Supports d x := by
  cases c with
  | none => simp
  | some a =>
      have ha := hc a rfl
      cases d with
      | none => simp
      | some b => simp only [Links.merged_some ha, supports_some, le_larger_or ha]

theorem supports_smaller (hc : ∀ a ∈ c, a.isNaN = false) (hd : ∀ a ∈ d, a.isNaN = false) :
    Supports (c.bind fun a => d.map (smaller a)) x ↔ Supports c x ∧ Supports d x := by
  cases c with
  | none => simp
  | some a =>
      cases d with
      | none => simp
      | some b => simp [le_smaller_iff (hc a rfl) (hd b rfl)]

theorem supports_reached : Supports (c.bind (reached θ)) x ↔ ∃ a ∈ c, θ ≤ a ∧ x ≤ a := by
  cases c with
  | none => simp
  | some a => by_cases h : θ ≤ a <;> simp [reached, h]

/-- Scores without a minus sign are the same if they support the same numbers. -/
theorem eq_of_supports_iff (hc : ∀ a ∈ c, IsUnsigned a) (hd : ∀ a ∈ d, IsUnsigned a)
    (h : ∀ x, Supports c x ↔ Supports d x) : c = d := by
  have hself {a : Float} (ha : IsUnsigned a) : a ≤ a := le_self (number_of_le_right ha.nonneg)
  cases c with
  | none =>
      cases d with
      | none => rfl
      | some b => exact absurd ((h b).mpr (supports_some.mpr (hself (hd b rfl)))) supports_none
  | some a =>
      cases d with
      | none => exact absurd ((h a).mp (supports_some.mpr (hself (hc a rfl)))) supports_none
      | some b =>
          simp only [supports_some] at h
          rw [eq_of_le_iff (hc a rfl) (hd b rfl) h]

end Score

namespace Links

variable {m : Links} {ls : List Link} {s t : String} {x : Float}

theorem supports_addAll (hm : m.Numeric) (hls : ∀ l ∈ ls, l.confidence.isNaN = false) :
    Supports ((m.addAll ls).find? s t) x ↔
      Supports (m.find? s t) x ∨ ∃ l ∈ ls, l.source = s ∧ l.target = t ∧ x ≤ l.confidence := by
  induction ls generalizing m with
  | nil => simp [addAll]
  | cons l ls ih =>
      obtain ⟨hl, hls⟩ := List.forall_mem_cons.mp hls
      have hadd := ih (forall_find?_add hm hl l.source l.target) hls
      change Supports (((m.addLink l).addAll ls).find? s t) x ↔ _
      rw [addLink, hadd, find?_add]
      by_cases hpair : l.source = s ∧ l.target = t
      · rw [if_pos hpair, supports_merged (hm s t)]
        simp [hpair, or_assoc]
      · have hother : ¬ (l.source = s ∧ l.target = t ∧ x ≤ l.confidence) :=
          fun h => hpair ⟨h.1, h.2.1⟩
        simp only [if_neg hpair, List.exists_mem_cons_iff, hother, false_or]

theorem supports_ofList (hls : ∀ l ∈ ls, l.confidence.isNaN = false) :
    Supports ((ofList ls).find? s t) x ↔
      ∃ l ∈ ls, l.source = s ∧ l.target = t ∧ x ≤ l.confidence := by
  rw [ofList, supports_addAll (by simp [Numeric]) hls, find?_empty, or_iff_right supports_none]

end Links

namespace Mapper

variable {sides : Sides} {score : Entity → Entity → Float} {s t : String} {x θ : Float}

/-- What a mapper supports for two addresses is what some of their entities support. -/
theorem supports_pairsAtLeast (hscore : ∀ a b, (score a b).isNaN = false) :
    Supports ((Links.ofList (pairsAtLeast sides score θ)).find? s t) x ↔
      ∃ a ∈ sides.source.toList, ∃ b ∈ sides.target.toList, a.uri = s ∧ b.uri = t ∧
        θ ≤ score a b ∧ x ≤ score a b := by
  rw [Links.supports_ofList]
  · simp only [pairsAtLeast, List.mem_flatMap, List.mem_filterMap]
    constructor
    · rintro ⟨l, ⟨a, ha, b, hb, hl⟩, hs, ht, hx⟩
      split at hl
      · rename_i hθ
        obtain rfl := Option.some.inj hl
        exact ⟨a, ha, b, hb, hs, ht, hθ, hx⟩
      · cases hl
    · rintro ⟨a, ha, b, hb, hs, ht, hθ, hx⟩
      exact ⟨_, ⟨a, ha, b, hb, if_pos hθ⟩, hs, ht, hx⟩
  · intro l hl
    obtain ⟨a, b, hconfidence, -⟩ := confidence_of_mem_pairsAtLeast hl
    rw [hconfidence]
    exact hscore a b

end Mapper

/-- A call with two arguments and a known measure supports what the scores of the entities with the two
addresses support; another call supports nothing. -/
theorem Call.supports_links {r : Registry} (hr : r.TakesBestPairs) {sides : Sides} {call : Call}
    {s t : String} {x θ : Float} :
    Supports ((call.links r sides θ).find? s t) x ↔
      ∃ first second m, call.arguments = [first, second] ∧ r.measure? call.measure = some m ∧
        ∃ a ∈ sides.source.toList, ∃ b ∈ sides.target.toList, a.uri = s ∧ b.uri = t ∧
          let score := m.score (Path.property first sides.sourceVar)
            (Path.property second sides.targetVar) a b
          θ ≤ score ∧ x ≤ score := by
  obtain ⟨name, arguments⟩ := call
  rcases arguments with _ | ⟨first, _ | ⟨second, _ | ⟨third, others⟩⟩⟩ <;>
    simp only [links, score?]
  · simp
  · simp
  · cases hm : r.measure? name with
    | none => simp
    | some m =>
        have hnumber a b := number_of_le_right (Measure.score_nonneg (hr _ m hm)
          (Path.property first sides.sourceVar) (Path.property second sides.targetVar) a b)
        simp [Mapper.supports_pairsAtLeast hnumber]
  · simp

end LinkDiscovery
