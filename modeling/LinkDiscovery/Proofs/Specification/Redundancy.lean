import LinkDiscovery.Specification.Reading
import Mathlib
/-!
Leaves that compare the same properties. Leaves are told apart by one text for both properties, joined by
an underscore. Leaves with the same properties have the same text, so a repetition is always found; the
text is also that of other properties, where an underscore inside one of them can be taken for the one
that joins them, or where a missing property can be taken for an empty one.
-/

namespace LinkDiscovery.Specification

/-- A property, and an empty text for a missing one. -/
def propertyText (property : Option String) : String :=
  property.getD ""

/-- The properties that a leaf compares. -/
def properties (s : Specification) : Option String × Option String :=
  (s.label.property₁, s.label.property₂)

/-- Two leaves compare the same properties. A missing property is the same as a missing one only. -/
def SameProperties (a b : Specification) : Prop :=
  a.properties = b.properties

/-- The first properties overlap: that of `b` begins with that of `a` and an underscore, and what comes
then and another underscore is what the second property of `a` begins with. -/
def Overlaps (a b : Specification) : Prop :=
  ∃ between, propertyText b.label.property₁ = propertyText a.label.property₁ ++ "_" ++ between ∧
    propertyText a.label.property₂ = between ++ "_" ++ propertyText b.label.property₂

/-- Two leaves compare different properties, and their texts do not show it. -/
def Confusable (a b : Specification) : Prop :=
  ¬ SameProperties a b ∧
    ((propertyText a.label.property₁ = propertyText b.label.property₁ ∧
        propertyText a.label.property₂ = propertyText b.label.property₂) ∨
      Overlaps a b ∨ Overlaps b a)

/-- Two leaves at different places stand in a relation. -/
def HasLeafPair (R : Specification → Specification → Prop) (s : Specification) : Prop :=
  ∃ (i j : ℕ) (hi : i < s.leaves.length) (hj : j < s.leaves.length),
    i ≠ j ∧ R s.leaves[i] s.leaves[j]

/-! Joined texts. -/

theorem append_cons_eq_iff {x : Char} {a b c d : List Char} :
    a ++ x :: b = c ++ x :: d ↔
      (a = c ∧ b = d) ∨ (∃ r, c = a ++ x :: r ∧ b = r ++ x :: d) ∨
        ∃ r, a = c ++ x :: r ∧ d = r ++ x :: b := by
  constructor
  · intro h
    rcases List.append_eq_append_iff.mp h with ⟨r, rfl, hr⟩ | ⟨r, rfl, hr⟩
    · cases r with
      | nil => exact .inl ⟨by simp, by simpa using hr⟩
      | cons y r =>
          obtain ⟨rfl, rfl⟩ := List.cons.inj hr
          exact .inr (.inl ⟨r, rfl, rfl⟩)
    · cases r with
      | nil => exact .inl ⟨by simp, by simpa using hr.symm⟩
      | cons y r =>
          obtain ⟨rfl, rfl⟩ := List.cons.inj hr
          exact .inr (.inr ⟨r, rfl, rfl⟩)
  · rintro (⟨rfl, rfl⟩ | ⟨r, rfl, rfl⟩ | ⟨r, rfl, rfl⟩) <;> simp

/-- Two pairs of texts are joined to the same text if they are the same, or overlap. -/
theorem joined_eq_iff {a b c d : String} :
    a ++ "_" ++ b = c ++ "_" ++ d ↔
      (a = c ∧ b = d) ∨ (∃ r, c = a ++ "_" ++ r ∧ b = r ++ "_" ++ d) ∨
        ∃ r, a = c ++ "_" ++ r ∧ d = r ++ "_" ++ b := by
  have hlist (u v w : String) : u = v ++ "_" ++ w ↔ u.toList = v.toList ++ '_' :: w.toList := by
    rw [← String.toList_inj]
    simp
  have hexists (u v w z : String) :
      (∃ r, u = v ++ "_" ++ r ∧ w = r ++ "_" ++ z) ↔
        ∃ r, u.toList = v.toList ++ '_' :: r ∧ w.toList = r ++ '_' :: z.toList := by
    constructor
    · rintro ⟨r, hu, hw⟩
      exact ⟨r.toList, (hlist u v r).mp hu, (hlist w r z).mp hw⟩
    · rintro ⟨r, hu, hw⟩
      refine ⟨String.ofList r, (hlist u v _).mpr ?_, (hlist w _ z).mpr ?_⟩
      · rwa [String.toList_ofList]
      · rwa [String.toList_ofList]
  rw [hlist, hexists, hexists, ← String.toList_inj, ← String.toList_inj]
  simpa using append_cons_eq_iff (x := '_')

theorem propertyKey_eq_iff {a b : Specification} :
    a.propertyKey = b.propertyKey ↔ SameProperties a b ∨ Confusable a b := by
  have htexts : a.propertyKey = b.propertyKey ↔
      (propertyText a.label.property₁ = propertyText b.label.property₁ ∧
        propertyText a.label.property₂ = propertyText b.label.property₂) ∨
      Overlaps a b ∨ Overlaps b a := joined_eq_iff
  rw [htexts]
  by_cases hsame : SameProperties a b
  · refine iff_of_true (.inl ?_) (.inl hsame)
    obtain ⟨hfirst, hsecond⟩ := Prod.mk.inj hsame
    rw [hfirst, hsecond]
    exact ⟨rfl, rfl⟩
  · simp [Confusable, hsame]

/-! Repeated texts. -/

theorem hasRepeat_iff (ks : List String) : hasRepeat ks = true ↔ ¬ ks.Nodup := by
  induction ks with
  | nil => simp [hasRepeat]
  | cons k ks ih =>
      rw [hasRepeat, Bool.or_eq_true, ih, List.contains_iff_mem, List.nodup_cons]
      tauto

variable {s : Specification}

/-- Two leaves at different places agree in what a function gives for them if and only if it gives the
same twice. -/
theorem hasLeafPair_eq_iff {α : Type} (f : Specification → α) :
    (s.HasLeafPair fun a b => f a = f b) ↔ ¬ (s.leaves.map f).Nodup := by
  rw [List.Nodup, List.pairwise_map, List.pairwise_iff_getElem]
  constructor
  · rintro ⟨i, j, hi, hj, hne, heq⟩ h
    rcases lt_or_gt_of_ne hne with hlt | hgt
    · exact h i j hi hj hlt heq
    · exact h j i hj hi hgt heq.symm
  · intro h
    push Not at h
    obtain ⟨i, j, hi, hj, hlt, heq⟩ := h
    exact ⟨i, j, hi, hj, hlt.ne, heq⟩

theorem HasLeafPair.congr {R Q : Specification → Specification → Prop}
    (h : ∀ a ∈ s.leaves, ∀ b ∈ s.leaves, (R a b ↔ Q a b)) : s.HasLeafPair R ↔ s.HasLeafPair Q := by
  have hplaces (i j : ℕ) (hi : i < s.leaves.length) (hj : j < s.leaves.length) :
      R s.leaves[i] s.leaves[j] ↔ Q s.leaves[i] s.leaves[j] :=
    h _ (List.getElem_mem hi) _ (List.getElem_mem hj)
  simp only [HasLeafPair, hplaces]

theorem isRedundant_iff_keys (s : Specification) :
    s.isRedundant = true ↔ s.HasLeafPair fun a b => a.propertyKey = b.propertyKey := by
  rw [isRedundant, hasRepeat_iff, ← hasLeafPair_eq_iff]

/-- A tree is redundant if and only if two leaves at different places compare the same properties, or
compare properties that can be confused. -/
theorem isRedundant_iff (s : Specification) :
    s.isRedundant = true ↔ s.HasLeafPair SameProperties ∨ s.HasLeafPair Confusable := by
  rw [isRedundant_iff_keys]
  simp only [HasLeafPair, propertyKey_eq_iff]
  constructor
  · rintro ⟨i, j, hi, hj, hne, h | h⟩
    · exact .inl ⟨i, j, hi, hj, hne, h⟩
    · exact .inr ⟨i, j, hi, hj, hne, h⟩
  · rintro (⟨i, j, hi, hj, hne, h⟩ | ⟨i, j, hi, hj, hne, h⟩)
    · exact ⟨i, j, hi, hj, hne, .inl h⟩
    · exact ⟨i, j, hi, hj, hne, .inr h⟩

/-- Two leaves of different properties are taken for a repetition: the underscore stands once inside the
second property and once inside the first. -/
theorem isRedundant_without_repetition :
    ∃ s, parse "OR(trigrams(a,b_c)|0.5, trigrams(a_b,c)|0.5)" 0.5 = .ok s ∧
      s.isRedundant = true ∧ ¬ s.HasLeafPair SameProperties := by
  have hread : (parse "OR(trigrams(a,b_c)|0.5, trigrams(a_b,c)|0.5)" 0.5).toOption.any (fun s =>
      s.isRedundant && decide (s.leaves.map properties).Nodup) = true := by
    decide +kernel
  cases hs : parse "OR(trigrams(a,b_c)|0.5, trigrams(a_b,c)|0.5)" 0.5 with
  | error fault => simp [hs, Except.toOption] at hread
  | ok s =>
      simp only [hs, Except.toOption, Option.any_some, Bool.and_eq_true, decide_eq_true_eq] at hread
      exact ⟨s, rfl, hread.1, fun h => (hasLeafPair_eq_iff properties).mp h hread.2⟩

/-- No property of a leaf is empty, and the first one has no underscore. -/
structure Plain (l : Specification) : Prop where
  filled : l.label.property₁ ≠ some "" ∧ l.label.property₂ ≠ some ""
  noUnderscore : '_' ∉ (propertyText l.label.property₁).toList

theorem propertyText_inj {p q : Option String} (hp : p ≠ some "") (hq : q ≠ some "") :
    propertyText p = propertyText q ↔ p = q := by
  cases p <;> cases q <;> simp_all [propertyText, eq_comm]

theorem Plain.not_overlaps {a b : Specification} (hb : b.Plain) : ¬ Overlaps a b := by
  rintro ⟨between, hfirst, -⟩
  refine hb.noUnderscore ?_
  rw [hfirst]
  simp

theorem Plain.not_confusable {a b : Specification} (ha : a.Plain) (hb : b.Plain) :
    ¬ Confusable a b := by
  rintro ⟨hdifferent, ⟨hfirst, hsecond⟩ | hover | hover⟩
  · exact hdifferent (Prod.ext ((propertyText_inj ha.filled.1 hb.filled.1).mp hfirst)
      ((propertyText_inj ha.filled.2 hb.filled.2).mp hsecond))
  · exact hb.not_overlaps hover
  · exact ha.not_overlaps hover

/-- Where no first property has an underscore, and none is empty, repetitions are found exactly. -/
theorem isRedundant_iff_of_plain (hplain : ∀ l ∈ s.leaves, l.Plain) :
    s.isRedundant = true ↔ s.HasLeafPair SameProperties := by
  rw [isRedundant_iff_keys]
  refine HasLeafPair.congr fun a ha b hb => propertyKey_eq_iff.trans (or_iff_left ?_)
  exact (hplain a ha).not_confusable (hplain b hb)

end LinkDiscovery.Specification
