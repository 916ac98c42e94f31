import LinkDiscovery.Proofs.Execution.Cuts
import LinkDiscovery.Proofs.Links.Lattice
import LinkDiscovery.Proofs.Links.Reversal
/-!
Cuts of links. A cut at a threshold can be made before a union or an intersection instead of after it,
and two cuts one after the other are one cut at the larger threshold. The links are then the same, so
that a plan may cut wherever it is cheapest.
-/

namespace LinkDiscovery

open Score

/-- Of two cuts one after the other, the one at the larger threshold counts. -/
theorem reached_bind_reached_eq {x y : Float} (hx : x.isNaN = false) (hy : y.isNaN = false)
    (c : Option Float) : (c.bind (reached y)).bind (reached x) = c.bind (reached (larger x y)) := by
  cases c with
  | none => rfl
  | some c =>
      have hboth := larger_le_iff (c := c) hx hy
      by_cases hcy : y ≤ c
      · by_cases hcx : x ≤ c
        · simp only [Option.bind_some, reached_self hcy, reached_self hcx,
            reached_self (hboth.mpr ⟨hcx, hcy⟩)]
        · simp only [Option.bind_some, reached_self hcy, reached_below hcx,
            reached_below fun h => hcx (hboth.mp h).1]
      · simp only [Option.bind_some, reached_below hcy, Option.bind_none,
          reached_below fun h => hcy (hboth.mp h).2]

namespace Links

variable {a b : Links} {x y : Float}

/-- Links without empty rows are a cut if they have its predicate and its confidences. -/
theorem Regular.eq_atLeast (hb : b.Regular) (hpredicate : a.predicate = b.predicate)
    (h : b.IsCut a x) : a.atLeast x = b := by
  refine (a.regular_atLeast x).ext hb ?_ fun s t => ?_
  · rw [predicate_atLeast, hpredicate]
  · rw [find?_atLeast, h s t]
    rfl

theorem atLeast_union (ha : a.Numeric) (hb : b.Numeric) (x : Float) :
    (a.union b).atLeast x = (a.atLeast x).union (b.atLeast x) := by
  have hregular := (a.regular_atLeast x).union (b.regular_atLeast x)
  refine hregular.eq_atLeast (by simp) fun s t => ?_
  rw [find?_union, find?_union, find?_atLeast, find?_atLeast]
  exact (merged_cut (ha s t) (hb s t) x).symm

theorem atLeast_intersection (ha : a.Numeric) (hb : b.Numeric) (x : Float) :
    (a.intersection b).atLeast x = (a.atLeast x).intersection (b.atLeast x) := by
  refine (regular_intersection _ _).eq_atLeast (by simp) fun s t => ?_
  have hcut := SetOperation.joined_cut (o := .intersection) (.inl rfl) (ha s t) (hb s t) x
  have hcuts := SetOperation.find?_apply .intersection (a.atLeast x) (b.atLeast x) (s := s) (t := t)
  have hlinks := SetOperation.find?_apply .intersection a b (s := s) (t := t)
  rw [find?_atLeast, find?_atLeast] at hcuts
  exact hcuts.trans (hcut.symm.trans (congrArg (·.bind (reached x)) hlinks.symm))

theorem atLeast_atLeast (m : Links) (hx : x.isNaN = false) (hy : y.isNaN = false) :
    (m.atLeast y).atLeast x = m.atLeast (larger x y) := by
  refine (m.regular_atLeast _).eq_atLeast (by simp) fun s t => ?_
  rw [find?_atLeast, find?_atLeast]
  exact (reached_bind_reached_eq hx hy (m.find? s t)).symm

/-- Cuts pass through unions and intersections, and of two cuts the larger threshold counts. -/
theorem atLeast_pushed (ha : a.Numeric) (hb : b.Numeric) (hx : x.isNaN = false)
    (hy : y.isNaN = false) :
    (a.union b).atLeast x = (a.atLeast x).union (b.atLeast x) ∧
      (a.intersection b).atLeast x = (a.atLeast x).intersection (b.atLeast x) ∧
        (a.atLeast y).atLeast x = a.atLeast (larger x y) :=
  ⟨atLeast_union ha hb x, atLeast_intersection ha hb x, atLeast_atLeast a hx hy⟩

/-- A pair that only one side links strongly enough, a row that a cut empties, and the two zeros. -/
theorem atLeast_pushed_sample :
    let a := (Links.ofList [⟨"s", "t", 0.5⟩, ⟨"s", "u", -0⟩, ⟨"r", "t", 0.25⟩]).setPredicate "p"
    let b := Links.ofList [⟨"s", "t", 0.75⟩, ⟨"s", "u", 0⟩, ⟨"q", "t", 1⟩]
    a.Numeric ∧ b.Numeric ∧ (0.5 : Float).isNaN = false ∧ (-0 : Float).isNaN = false ∧
      (a.union b).atLeast 0.5 = (a.atLeast 0.5).union (b.atLeast 0.5) ∧
        (a.intersection b).atLeast 0.5 = (a.atLeast 0.5).intersection (b.atLeast 0.5) ∧
          (a.atLeast (-0)).atLeast 0.5 = a.atLeast (larger 0.5 (-0)) := by
  intro a b
  have ha : a.Numeric := Numeric.ofList (by decide +kernel)
  have hb : b.Numeric := .ofList (by decide +kernel)
  exact ⟨ha, hb, rfl, rfl, atLeast_pushed ha hb rfl rfl⟩

end Links

end LinkDiscovery
