import LinkDiscovery.Proofs.Double.Numbers
import LinkDiscovery.Specification.Reading
/-!
The nodes of a specification, and what a specification that is read from an outline holds in them.
-/

namespace LinkDiscovery

/-- A compound without a fault has finite thresholds, and a sum without one has positive finite
coefficients. -/
theorem Compound.fault?_eq_none {c : Compound} {text : String} :
    c.fault? text = none ↔
      (c.left.threshold.isFinite = true ∧ c.right.threshold.isFinite = true) ∧
        (c.keyword = .add →
          (c.left.coefficient.isFinite = true ∧ ¬ c.left.coefficient ≤ 0) ∧
            c.right.coefficient.isFinite = true ∧ ¬ c.right.coefficient ≤ 0) := by
  unfold Compound.fault?
  split
  · rename_i v hv
    have hbad := List.find?_some hv
    have hmem := List.mem_of_find?_eq_some hv
    simp only [reduceCtorEq, false_iff, not_and]
    rintro ⟨hl, hr⟩
    rcases (by simpa using hmem : v = c.left.threshold ∨ v = c.right.threshold) with rfl | rfl
    · simp [hl] at hbad
    · simp [hr] at hbad
  · rename_i hfinite
    have hfinite := List.find?_eq_none.mp hfinite
    have hthresholds : c.left.threshold.isFinite = true ∧ c.right.threshold.isFinite = true := by
      simpa using hfinite
    split
    · rename_i hadd
      simp [hthresholds, hadd]
    · rename_i hadd
      simp [hthresholds, hadd]

/-- The thresholds of the terms of a compound without a fault are numbers if its own threshold is one. -/
theorem Compound.thresholds_number {c : Compound} {text : String} {θ : Float}
    (hfault : c.fault? text = none) (hθ : θ.isNaN = false) :
    (c.thresholds θ).1.isNaN = false ∧ (c.thresholds θ).2.isNaN = false := by
  obtain ⟨⟨hl, hr⟩, hsum⟩ := Compound.fault?_eq_none.mp hfault
  cases hk : c.keyword with
  | add =>
      obtain ⟨⟨hl, hlpos⟩, hr, hrpos⟩ := hsum hk
      have hpos {x : Float} (hx : x.isFinite = true) (h : ¬ x ≤ 0) : 0 < x :=
        (Score.not_le (Score.number_of_finite hx) rfl).mp h
      simp only [Compound.thresholds, hk]
      exact ⟨Double.number_div (Double.number_sub hθ hr) hl (hpos hl hlpos),
        Double.number_div (Double.number_sub hθ hl) hr (hpos hr hrpos)⟩
  | and | or | xor | minus =>
      simp only [Compound.thresholds, hk]
      exact ⟨Score.number_of_finite hl, Score.number_of_finite hr⟩
  | min | max =>
      simp only [Compound.thresholds, hk]
      exact ⟨hθ, hθ⟩

theorem Outline.fault?_node {c : Compound} {left right : Outline} {text : String} :
    (Outline.node c left right).fault? text = none ↔
      c.fault? text = none ∧ left.fault? c.left.text = none ∧ right.fault? c.right.text = none := by
  simp [Outline.fault?]

theorem Outline.read_eq_ok {text : String} {o : Outline} :
    Outline.read text = .ok o ↔
      Outline.parse text = .ok o ∧ o.fault? (Text.trim text) = none := by
  unfold Outline.read
  cases Outline.parse text with
  | error fault => simp [bind, Except.bind]
  | ok o' =>
      cases hfault : o'.fault? (Text.trim text) with
      | none =>
          simp only [bind, Except.bind, pure, Except.pure, hfault, Except.ok.injEq]
          exact ⟨fun h => ⟨h, h ▸ hfault⟩, fun h => h.1⟩
      | some fault =>
          simp only [bind, Except.bind, throw, throwThe, MonadExceptOf.throw, hfault,
            reduceCtorEq, Except.ok.injEq, false_iff, not_and]
          rintro rfl
          simp [hfault]

namespace Specification

/-- The nodes of a specification: itself and those of its children. -/
inductive IsNode : Specification → Specification → Prop where
  | root (s : Specification) : IsNode s s
  | child {s t c : Specification} : c ∈ s.children → IsNode t c → IsNode t s

theorem ofOutline_threshold (o : Outline) (θ : Float) : (ofOutline o θ).threshold = θ := by
  cases o <;> rfl

variable {P : Specification → Prop} {θ : Float}

theorem forall_nodes_leaf {text : String} {call : Call} :
    (∀ t, IsNode t (ofOutline (.leaf text call) θ) → P t) ↔ P (ofOutline (.leaf text call) θ) := by
  constructor
  · exact fun h => h _ (.root _)
  · intro h t ht
    cases ht with
    | root => exact h
    | child hc _ => cases hc

/-- What holds of every node holds of the node at the root and of the nodes of both terms. -/
theorem forall_nodes {c : Compound} {left right : Outline} :
    (∀ t, IsNode t (ofOutline (.node c left right) θ) → P t) ↔
      P (ofOutline (.node c left right) θ) ∧
        (∀ t, IsNode t (ofOutline left (c.thresholds θ).1) → P t) ∧
          ∀ t, IsNode t (ofOutline right (c.thresholds θ).2) → P t := by
  have hchildren : (ofOutline (.node c left right) θ).children =
      [ofOutline left (c.thresholds θ).1, ofOutline right (c.thresholds θ).2] := rfl
  constructor
  · intro h
    refine ⟨h _ (.root _), fun t ht => h t (.child ?_ ht), fun t ht => h t (.child ?_ ht)⟩
    · simp [hchildren]
    · simp [hchildren]
  · rintro ⟨hroot, hleft, hright⟩ t ht
    cases ht with
    | root => exact hroot
    | child hc ht =>
        rw [hchildren, List.mem_cons, List.mem_singleton] at hc
        rcases hc with rfl | rfl
        · exact hleft t ht
        · exact hright t ht

/-- All thresholds below the root are finite. The root is left out: its threshold is no part of its
full text. -/
def FiniteBelow (s : Specification) : Prop :=
  ∀ c ∈ s.children, ∀ t, IsNode t c → t.threshold.isFinite = true

theorem FiniteBelow.of_nodes {s : Specification}
    (h : ∀ t, IsNode t s → t.threshold.isFinite = true) : s.FiniteBelow :=
  fun _ hc t ht => h t (.child hc ht)

theorem finiteBelow_node {c : Compound} {left right : Outline} :
    (ofOutline (.node c left right) θ).FiniteBelow ↔
      (∀ t, IsNode t (ofOutline left (c.thresholds θ).1) → t.threshold.isFinite = true) ∧
        ∀ t, IsNode t (ofOutline right (c.thresholds θ).2) → t.threshold.isFinite = true := by
  have hchildren : (ofOutline (.node c left right) θ).children =
      [ofOutline left (c.thresholds θ).1, ofOutline right (c.thresholds θ).2] := rfl
  simp [FiniteBelow, hchildren]

theorem parse_eq_ok {text : String} {θ : Float} {s : Specification} :
    parse text θ = .ok s ↔
      ∃ o, Outline.parse text = .ok o ∧ o.fault? (Text.trim text) = none ∧ s = ofOutline o θ := by
  simp only [← and_assoc, ← Outline.read_eq_ok]
  unfold parse
  cases Outline.read text <;> simp [bind, Except.bind, pure, Except.pure, eq_comm]

end Specification

end LinkDiscovery
