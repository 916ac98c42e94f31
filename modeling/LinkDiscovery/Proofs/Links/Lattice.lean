import LinkDiscovery.Proofs.Double.Equality
import LinkDiscovery.Proofs.Links.Lookup
/-!
Union and intersection of links as the operations of a distributive lattice. The degree to which a pair
is linked is the position of its confidence among the numbers; a pair that is not linked stands below
all of them. A union takes the larger one of two degrees and an intersection the smaller one, so that
the laws of degrees are laws of links.
-/

namespace LinkDiscovery

namespace Score

variable {a b : Float}

theorem position_larger (ha : a.isNaN = false) (hb : b.isNaN = false) :
    position (larger a b) = position a ⊔ position b := by
  by_cases h : a < b
  · rw [larger_eq_right h, sup_eq_right.mpr (le_iff.mp (le_of_lt h)).2.2]
  · have hle := (not_lt ha hb).mp h
    rw [larger_eq_left ha hle, sup_eq_left.mpr (le_iff.mp hle).2.2]

theorem position_smaller (ha : a.isNaN = false) (hb : b.isNaN = false) :
    position (smaller a b) = position a ⊓ position b := by
  by_cases h : b < a
  · rw [inf_eq_right.mpr (le_iff.mp (le_of_lt h)).2.2]
    simp only [smaller, h, decide_true, Bool.true_or, if_true]
  · rw [inf_eq_left.mpr (le_iff.mp ((not_lt hb ha).mp h)).2.2]
    simp only [smaller, h, ha, decide_false, Bool.or_self, Bool.false_eq_true, if_false]

/-- The position of a score; a missing one stands below all numbers. -/
def degree : Option Float → WithBot (ℤ ×ₗ ℤ ×ₗ ℤ)
  | none => ⊥
  | some c => (position c : WithBot _)

/-- Scores that are numbers are equal if and only if they have the same degree. -/
theorem beq_iff_degree {c d : Option Float} (hc : ∀ x ∈ c, x.isNaN = false)
    (hd : ∀ x ∈ d, x.isNaN = false) : (c == d) = true ↔ degree c = degree d := by
  cases c with
  | none => cases d <;> simp [degree]
  | some x =>
      cases d with
      | none => simp [degree]
      | some y =>
          have hx := hc x rfl
          have hy := hd y rfl
          simp only [Option.some_beq_some, beq_iff, hx, hy, true_and, degree, WithBot.coe_inj]

end Score

namespace Links

open Score

/-- All confidences are numbers. -/
def Numeric (m : Links) : Prop :=
  ∀ s t, ∀ c ∈ m.find? s t, c.isNaN = false

/-- The same pairs are linked, with confidences that are equal as numbers. -/
def SameLinks (m n : Links) : Prop :=
  ∀ s t, m.find? s t == n.find? s t

/-- The degree to which each pair is linked. -/
def degrees (m : Links) (s t : String) : WithBot (ℤ ×ₗ ℤ ×ₗ ℤ) :=
  degree (m.find? s t)

variable {a b c m n : Links}

theorem mem_of_mem_merged {c d : Option Float} {x : Float} (h : x ∈ merged c d) :
    x ∈ c ∨ x ∈ d := by
  cases c with
  | none => exact .inr h
  | some y =>
      cases d with
      | none => exact .inl h
      | some z =>
          obtain rfl := Option.some.inj h
          split
          · exact .inr rfl
          · exact .inl rfl

namespace Numeric

theorem ofList {ls : List Link} (h : ∀ l ∈ ls, l.confidence.isNaN = false) :
    (Links.ofList ls).Numeric :=
  forall_find?_addAll (by simp) h

/-- A union takes the larger confidence of a pair that both sides link. -/
theorem find?_union (hm : m.Numeric) (n : Links) (s t : String) :
    (m.union n).find? s t = Option.merge larger (m.find? s t) (n.find? s t) := by
  rw [Links.find?_union]
  have hnumber := hm s t
  cases hc : m.find? s t with
  | none => cases n.find? s t <;> rfl
  | some x =>
      cases n.find? s t with
      | none => rfl
      | some y => exact merged_some (hnumber x hc) y

theorem union (hm : m.Numeric) (hn : n.Numeric) : (m.union n).Numeric := by
  intro s t x hx
  rw [Links.find?_union] at hx
  rcases mem_of_mem_merged hx with hx | hx
  · exact hm s t x hx
  · exact hn s t x hx

theorem intersection (hm : m.Numeric) (hn : n.Numeric) : (m.intersection n).Numeric := by
  intro s t x hx
  rw [find?_intersection] at hx
  obtain ⟨y, hy, hx⟩ := Option.bind_eq_some_iff.mp hx
  obtain ⟨z, hz, rfl⟩ := Option.map_eq_some_iff.mp hx
  rw [smaller]
  split
  · exact hn s t z hz
  · exact hm s t y hy

theorem degrees_union (hm : m.Numeric) (hn : n.Numeric) :
    (m.union n).degrees = m.degrees ⊔ n.degrees := by
  funext s t
  have hm' := hm s t
  have hn' := hn s t
  simp only [degrees, Pi.sup_apply, hm.find?_union]
  cases hx : m.find? s t with
  | none => simp [degree]
  | some x =>
      cases hy : n.find? s t with
      | none => simp [degree]
      | some y =>
          rw [Option.merge_some_some, degree, position_larger (hm' x hx) (hn' y hy), WithBot.coe_sup]
          rfl

theorem degrees_intersection (hm : m.Numeric) (hn : n.Numeric) :
    (m.intersection n).degrees = m.degrees ⊓ n.degrees := by
  funext s t
  have hm' := hm s t
  have hn' := hn s t
  simp only [degrees, Pi.inf_apply, find?_intersection]
  cases hx : m.find? s t with
  | none => simp [degree]
  | some x =>
      cases hy : n.find? s t with
      | none => simp [degree]
      | some y =>
          rw [Option.bind_some, Option.map_some, degree, position_smaller (hm' x hx) (hn' y hy),
            WithBot.coe_inf]
          rfl

theorem sameLinks_iff (hm : m.Numeric) (hn : n.Numeric) :
    m.SameLinks n ↔ m.degrees = n.degrees := by
  simp only [SameLinks, beq_iff_degree (hm _ _) (hn _ _), funext_iff, degrees]

end Numeric

/-- The laws of a distributive lattice for three sets of links, and what its operations do to a single
pair: a union passes on what only one side links, and an intersection what both sides link. -/
structure LatticeLaws (a b c : Links) : Prop where
  union_comm : (a.union b).SameLinks (b.union a)
  intersection_comm : (a.intersection b).SameLinks (b.intersection a)
  union_assoc : ((a.union b).union c).SameLinks (a.union (b.union c))
  intersection_assoc :
    ((a.intersection b).intersection c).SameLinks (a.intersection (b.intersection c))
  union_self : (a.union a).SameLinks a
  intersection_self : (a.intersection a).SameLinks a
  union_intersection_self : (a.union (a.intersection b)).SameLinks a
  intersection_union_self : (a.intersection (a.union b)).SameLinks a
  union_intersection_distrib :
    (a.union (b.intersection c)).SameLinks ((a.union b).intersection (a.union c))
  intersection_union_distrib :
    (a.intersection (b.union c)).SameLinks ((a.intersection b).union (a.intersection c))
  find?_union : ∀ s t,
    (a.union b).find? s t = Option.merge larger (a.find? s t) (b.find? s t)
  find?_intersection : ∀ s t,
    (a.intersection b).find? s t = Option.map₂ smaller (a.find? s t) (b.find? s t)

/-- Links whose confidences are numbers form a distributive lattice: a union takes the larger one of the
confidences of a pair, and an intersection the smaller one. -/
theorem union_intersection_lattice (ha : a.Numeric) (hb : b.Numeric) (hc : c.Numeric) :
    LatticeLaws a b c where
  union_comm := by
    rw [(ha.union hb).sameLinks_iff (hb.union ha), ha.degrees_union hb, hb.degrees_union ha, sup_comm]
  intersection_comm := by
    rw [(ha.intersection hb).sameLinks_iff (hb.intersection ha), ha.degrees_intersection hb,
      hb.degrees_intersection ha, inf_comm]
  union_assoc := by
    rw [((ha.union hb).union hc).sameLinks_iff (ha.union (hb.union hc)),
      (ha.union hb).degrees_union hc, ha.degrees_union hb, ha.degrees_union (hb.union hc),
      hb.degrees_union hc, sup_assoc]
  intersection_assoc := by
    rw [((ha.intersection hb).intersection hc).sameLinks_iff (ha.intersection (hb.intersection hc)),
      (ha.intersection hb).degrees_intersection hc, ha.degrees_intersection hb,
      ha.degrees_intersection (hb.intersection hc), hb.degrees_intersection hc, inf_assoc]
  union_self := by
    rw [(ha.union ha).sameLinks_iff ha, ha.degrees_union ha, sup_idem]
  intersection_self := by
    rw [(ha.intersection ha).sameLinks_iff ha, ha.degrees_intersection ha, inf_idem]
  union_intersection_self := by
    rw [(ha.union (ha.intersection hb)).sameLinks_iff ha, ha.degrees_union (ha.intersection hb),
      ha.degrees_intersection hb, sup_inf_self]
  intersection_union_self := by
    rw [(ha.intersection (ha.union hb)).sameLinks_iff ha, ha.degrees_intersection (ha.union hb),
      ha.degrees_union hb, inf_sup_self]
  union_intersection_distrib := by
    rw [(ha.union (hb.intersection hc)).sameLinks_iff ((ha.union hb).intersection (ha.union hc)),
      ha.degrees_union (hb.intersection hc), hb.degrees_intersection hc,
      (ha.union hb).degrees_intersection (ha.union hc), ha.degrees_union hb, ha.degrees_union hc,
      sup_inf_left]
  intersection_union_distrib := by
    rw [(ha.intersection (hb.union hc)).sameLinks_iff ((ha.intersection hb).union (ha.intersection hc)),
      ha.degrees_intersection (hb.union hc), hb.degrees_union hc,
      (ha.intersection hb).degrees_union (ha.intersection hc), ha.degrees_intersection hb,
      ha.degrees_intersection hc, inf_sup_left]
  find?_union := ha.find?_union b
  find?_intersection := fun _ _ => Links.find?_intersection a b

/-- Rows on one side only, an empty row, and the two zeros. -/
theorem union_intersection_lattice_sample :
    let a := Links.ofList [⟨"s", "t", 0⟩, ⟨"s", "u", 0.5⟩]
    let b := (empty.addRow "q" ∅).addAll [⟨"s", "t", -0⟩, ⟨"s", "u", 0.25⟩, ⟨"r", "t", 2⟩]
    let c := Links.ofList [⟨"r", "t", 1⟩, ⟨"r", "v", -1⟩]
    a.Numeric ∧ b.Numeric ∧ c.Numeric ∧ LatticeLaws a b c := by
  intro a b c
  have ha : a.Numeric := .ofList (by decide +kernel)
  have hb : b.Numeric := forall_find?_addAll (by simp [find?_addRow]) (by decide +kernel)
  have hc : c.Numeric := .ofList (by decide +kernel)
  exact ⟨ha, hb, hc, union_intersection_lattice ha hb hc⟩

end Links

end LinkDiscovery
