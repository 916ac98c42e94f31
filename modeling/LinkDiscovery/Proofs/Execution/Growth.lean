import LinkDiscovery.Proofs.Entity.Insertions
import LinkDiscovery.Proofs.Execution.Completion
import LinkDiscovery.Proofs.Execution.Locality
import LinkDiscovery.Proofs.Execution.Support
/-!
Collections that grow. When entities are added to two collections, or values to their entities, an
expression without sums and differences goes on to link the pairs that it has linked, with confidences
that are at least as large.
-/

namespace LinkDiscovery

open Grammar Score

/-- The other entity has the same address and all values of each property. -/
structure Entity.Within (e other : Entity) : Prop where
  uri : other.uri = e.uri
  values : ∀ p, ∀ v ∈ e.values p, v ∈ other.values p

/-- Each entity is within one of the other collection. -/
def Collection.Within (c other : Collection) : Prop :=
  ∀ e ∈ c.toList, ∃ e' ∈ other.toList, e.Within e'

/-- Both collections are within those of the other side, and are named by the same variables. -/
structure Sides.Within (a b : Sides) : Prop where
  vars : a.SameVariables b
  source : a.source.Within b.source
  target : a.target.Within b.target

/-- Recording something more adds to a collection. -/
theorem Collection.Keyed.within_record {c : Collection} (h : c.Keyed) (i : Insertion) :
    c.Within (c.record i) := by
  intro e he
  have hfind := h.mem_toList.mp he
  by_cases huri : i.uri = e.uri
  · have hknown : ∀ x ∈ c.find? e.uri, x.uri = i.uri := fun x hx => (h _ x hx).trans huri.symm
    refine ⟨recorded (c.find? e.uri) i, Collection.mem_toList.mpr ⟨e.uri, ?_⟩, ?_, fun p v hv => ?_⟩
    · rw [find?_record, if_pos huri]
    · rw [uri_recorded hknown, huri]
    · exact mem_values_recorded.mpr (.inl ⟨e, hfind, hv⟩)
  · refine ⟨e, Collection.mem_toList.mpr ⟨e.uri, ?_⟩, rfl, fun _ _ hv => hv⟩
    rw [find?_record, if_neg huri, hfind]

namespace Outline

/-- The keywords of the outline are those of smallest and largest scores, intersections and unions. -/
def Positive : Outline → Prop
  | leaf _ _ => True
  | node c left right =>
    c.keyword ∈ [Keyword.and, .or, .min, .max] ∧ left.Positive ∧ right.Positive

variable {o : Outline}

theorem positive_keyword {k : Keyword} (h : k ∈ [Keyword.and, .or, .min, .max]) :
    k ≠ .add ∧ (k.operator.setOperation = .intersection ∨ k.operator.setOperation = .union) := by
  revert h
  cases k <;> decide

theorem Positive.noSums (h : o.Positive) : o.NoSums := by
  induction o with
  | leaf text call => trivial
  | node c left right ihl ihr => exact ⟨(positive_keyword h.1).1, ihl h.2.1, ihr h.2.2⟩

/-- Joins of more support more. -/
theorem supports_joined {operation : SetOperation}
    (ho : operation = .intersection ∨ operation = .union) {c c' d d' : Option Float}
    (hc : ∀ x ∈ c, x.isNaN = false) (hc' : ∀ x ∈ c', x.isNaN = false)
    (hd : ∀ x ∈ d, x.isNaN = false) (hd' : ∀ x ∈ d', x.isNaN = false)
    (h : ∀ x, Supports c x → Supports c' x) (h' : ∀ x, Supports d x → Supports d' x) (x : Float) :
    Supports (operation.joined c d) x → Supports (operation.joined c' d') x := by
  rcases ho with rfl | rfl
  · simp only [SetOperation.joined, supports_smaller hc hd, supports_smaller hc' hd']
    exact And.imp (h x) (h' x)
  · simp only [SetOperation.joined, supports_merged hc, supports_merged hc']
    exact Or.imp (h x) (h' x)

/-- What an outline supports for a pair it supports in larger collections. -/
theorem supports_linkedAt {r : Registry} (hbest : r.TakesBestPairs)
    (hr : ∀ name m, r.measure? name = some m → m.Bounded) {a b : Sides} (hsides : a.Within b)
    {text : String} (hfault : o.fault? text = none) (ho : o.Positive) {s t : String} {θ x : Float} :
    Supports (o.linkedAt r a s t θ) x → Supports (o.linkedAt r b s t θ) x := by
  induction o generalizing text θ x with
  | leaf spelling call =>
      simp only [linkedAt, Call.supports_links hbest]
      rintro ⟨first, second, m, harguments, hm, e, he, f, hf, hs, ht, hθ, hx⟩
      obtain ⟨e', he', hee'⟩ := hsides.source e he
      obtain ⟨f', hf', hff'⟩ := hsides.target f hf
      have hle := Measure.score_le (hbest _ m hm) (hr _ m hm)
        (hee'.values (Path.property first a.sourceVar)) (hff'.values (Path.property second a.targetVar))
      rw [hsides.vars.source, hsides.vars.target] at hle hθ hx
      exact ⟨first, second, m, harguments, hm, e', he', f', hf', hee'.uri.trans hs,
        hff'.uri.trans ht, le_trans hθ hle, le_trans hx hle⟩
  | node c left right ihl ihr =>
      obtain ⟨hc, hl, hrt⟩ := ho
      obtain ⟨-, hfl, hfr⟩ := fault?_node.mp hfault
      have hnumber {o : Outline} {text : String} (h : o.fault? text = none) {sides : Sides}
          {θ : Float} : ∀ x ∈ o.linkedAt r sides s t θ, x.isNaN = false :=
        fun x hx => number_of_le_right (linkedAt_unsigned hbest h x hx).nonneg
      obtain ⟨hsum, hjoin⟩ := positive_keyword hc
      have hjoined := supports_joined hjoin (hnumber hfl) (hnumber hfl) (hnumber hfr) (hnumber hfr)
        (fun _ => ihl hfl hl (θ := (c.thresholds θ).1)) fun _ => ihr hfr hrt (θ := (c.thresholds θ).2)
      rw [linkedAt_of_not_sum hsum, linkedAt_of_not_sum hsum, supports_reached, supports_reached]
      rintro ⟨d, hd, hθ, hx⟩
      obtain ⟨d', hd', hle⟩ := hjoined d ⟨d, hd, le_self (number_of_le_right hθ)⟩
      exact ⟨d', hd', le_trans hθ hle, le_trans hx hle⟩

end Outline

namespace Specification

/-- Without sums there is nothing to read again. -/
theorem sumsRereadable_of_noSums {o : Outline} (h : o.NoSums) (θ : Float) :
    (ofOutline o θ).SumsRereadable := by
  induction o generalizing θ with
  | leaf text call => exact forall_nodes_leaf.mpr fun hsum => by cases hsum
  | node c left right ihl ihr =>
      exact sumsRereadable_node.mpr ⟨fun hc => absurd hc h.1, ihl h.2.1 _, ihr h.2.2 _⟩

end Specification

namespace Engine

open Specification

variable {a b : Sides} {text : String} {θ : Float} {s : Specification} {o : Outline}

/-- More data never removes links. For an expression by `AND`, `OR`, `MIN` and `MAX` over calls with two
arguments, whatever the threshold is, the canonical plan has a result for any collections, and each pair
that it links is linked for all collections that hold these, with a confidence that is at least as
large. -/
theorem executeNested_grows (h : a.Within b) (hs : parse text θ = .ok s)
    (ho : Outline.parse text = .ok o) (hpairs : o.ComparesPairs) (hpositive : o.Positive) :
    ∃ ex ex', (standard a).executeNested s.plan = .ok ex ∧
      (standard b).executeNested s.plan = .ok ex' ∧
        ∀ source target c, ex.links.find? source target = some c →
          ∃ c', ex'.links.find? source target = some c' ∧ c ≤ c' := by
  obtain ⟨o', ho', hfault, rfl⟩ := parse_eq_ok.mp hs
  obtain rfl : o' = o := Except.ok.inj (ho'.symm.trans ho)
  obtain ⟨w, hw, rfl, -⟩ := exists_spelling ho
  have hcompletes (sides : Sides) := (executeNested_completesIff Registry.standard_pairwise sides hw
    hfault hpairs).result_iff.mpr (sumsRereadable_of_noSums hpositive.noSums θ)
  obtain ⟨ex, hex⟩ := hcompletes a
  obtain ⟨ex', hex'⟩ := hcompletes b
  refine ⟨ex, ex', hex, hex', fun source target c hc => ?_⟩
  rw [find?_of_executeNested Registry.standard_pairwise hw hfault hex] at hc
  rw [find?_of_executeNested Registry.standard_pairwise hw hfault hex']
  have hbest := Registry.standard_takesBestPairs
  have hnumber := number_of_le_right (Outline.linkedAt_unsigned hbest hfault c hc).nonneg
  exact Outline.supports_linkedAt hbest (fun _ _ => Registry.standard_bounded) h hfault hpositive
    ⟨c, hc, le_self hnumber⟩

/-- The sides with one more value and one more entity. -/
def largerSides : Sides :=
  { sampleSides with
    source := sampleSides.source.record (.triple "s" "b" "twos")
    target := sampleSides.target.record (.triple "u" "a" "one") }

theorem executeNested_grows_sample :
    let w := Spelling.sample .min ['m', 'i', 'n']
    let text := String.ofList w.chars
    sampleSides.Within largerSides ∧ parse text 0.5 = .ok (w.tree 0.5) ∧
      Outline.parse text = .ok w.outline ∧ w.outline.ComparesPairs ∧ w.outline.Positive ∧
        ∃ ex ex', (standard sampleSides).executeNested (w.tree 0.5).plan = .ok ex ∧
          (standard largerSides).executeNested (w.tree 0.5).plan = .ok ex' ∧
            ∀ source target c, ex.links.find? source target = some c →
              ∃ c', ex'.links.find? source target = some c' ∧ c ≤ c' := by
  intro w text
  have hw : w.WrittenOut := Spelling.sample_writtenOut rfl
  obtain ⟨ho, hs⟩ := hw.parse_chars 0.5
  rw [Spelling.ofOutline_eq_tree] at hs
  have hwithin : sampleSides.Within largerSides :=
    ⟨⟨rfl, rfl⟩, sampleSides_keyed.1.within_record _, sampleSides_keyed.2.within_record _⟩
  have hpositive : w.outline.Positive := ⟨by decide, trivial, trivial⟩
  exact ⟨hwithin, hs, ho, ⟨rfl, rfl⟩, hpositive,
    executeNested_grows hwithin hs ho ⟨rfl, rfl⟩ hpositive⟩

end Engine

end LinkDiscovery
