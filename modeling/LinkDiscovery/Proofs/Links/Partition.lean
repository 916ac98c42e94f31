import LinkDiscovery.Proofs.Links.Size
/-!
How the set operations divide pairs between them. The intersection and the difference of two sides are
two parts of the first side; the union and the intersection together have as many links as both sides,
whatever their rows share; the symmetric difference is what is left of the union without the
intersection.
-/

namespace LinkDiscovery.Links

variable {a b : Links} {s t : String}

theorem contains_intersection (a b : Links) :
    (a.intersection b).contains s t ↔ a.contains s t ∧ b.contains s t := by
  rw [contains, contains, contains, find?_intersection]
  cases a.find? s t <;> cases b.find? s t <;> simp

theorem contains_difference (a b : Links) :
    (a.difference b).contains s t ↔ a.contains s t ∧ ¬ b.contains s t := by
  rw [contains, contains, find?_difference, contains]
  cases a.find? s t <;> cases b.find? s t <;> simp

theorem contains_symmetricDifference (a b : Links) :
    (a.symmetricDifference b).contains s t ↔
      a.contains s t ∧ ¬ b.contains s t ∨ b.contains s t ∧ ¬ a.contains s t := by
  rw [symmetricDifference, contains_union, contains_difference, contains_difference]

/-- A pair that only one side links keeps the confidence that it has there. -/
theorem find?_symmetricDifference_eq_some (a b : Links) {c : Float} :
    (a.symmetricDifference b).find? s t = some c ↔
      a.find? s t = some c ∧ ¬ b.contains s t ∨ b.find? s t = some c ∧ ¬ a.contains s t := by
  rw [find?_symmetricDifference, contains, contains]
  cases a.find? s t <;> cases b.find? s t <;> simp

/-! Sizes. -/

theorem Sized.intersection_add_difference (ha : a.Sized) (b : Links) :
    (a.intersection b).size + (a.difference b).size = a.size := by
  refine ha.size_add_size (sized_select _ _) (sized_select _ _) (fun s t => ?_) fun s t => ?_
  · rw [contains_intersection, contains_difference]
    rintro ⟨-, hb⟩ ⟨-, hnot⟩
    exact hnot hb
  · rw [contains_intersection, contains_difference, ← and_or_left, and_iff_left (em _)]

/-- The part that both sides link is the same part of each of them. -/
theorem Sized.intersection_add_difference_right (a : Links) (hb : b.Sized) :
    (a.intersection b).size + (b.difference a).size = b.size := by
  refine hb.size_add_size (sized_select _ _) (sized_select _ _) (fun s t => ?_) fun s t => ?_
  · rw [contains_intersection, contains_difference]
    rintro ⟨ha, -⟩ ⟨-, hnot⟩
    exact hnot ha
  · rw [contains_intersection, contains_difference, and_comm, ← and_or_left, and_iff_left (em _)]

/-- What a union adds to its first side is what only the second side links. -/
theorem Sized.add_difference (ha : a.Sized) (b : Links) :
    a.size + (b.difference a).size = (a.union b).size := by
  refine (ha.union b).size_add_size ha (sized_select _ _) (fun s t => ?_) fun s t => ?_
  · rw [contains_difference]
    rintro ha ⟨-, hnot⟩
    exact hnot ha
  · rw [contains_union, contains_difference, or_and_left, and_iff_left (em _)]

theorem Sized.symmetricDifference_add_intersection (ha : a.Sized) (b : Links) :
    (a.symmetricDifference b).size + (a.intersection b).size = (a.union b).size := by
  have hsized : (a.symmetricDifference b).Sized := (sized_select _ _).union _
  refine (ha.union b).size_add_size hsized (sized_select _ _) (fun s t => ?_) fun s t => ?_
  · rw [contains_symmetricDifference, contains_intersection]
    tauto
  · rw [contains_symmetricDifference, contains_intersection, contains_union]
    tauto

/-- How the set operations divide the pairs of two sides, and how their sizes add up. -/
structure DividePairs (a b : Links) : Prop where
  contains_iff : ∀ s t,
    a.contains s t ↔ (a.intersection b).contains s t ∨ (a.difference b).contains s t
  not_both : ∀ s t, ¬ ((a.intersection b).contains s t ∧ (a.difference b).contains s t)
  size_parts : (a.intersection b).size + (a.difference b).size = a.size
  contains_symmetricDifference : ∀ s t, (a.symmetricDifference b).contains s t ↔
    (a.union b).contains s t ∧ ¬ (a.intersection b).contains s t
  find?_symmetricDifference : ∀ s t c, (a.symmetricDifference b).find? s t = some c ↔
    a.find? s t = some c ∧ ¬ b.contains s t ∨ b.find? s t = some c ∧ ¬ a.contains s t
  symmetricDifference_comm : ∀ s t,
    (a.symmetricDifference b).find? s t = (b.symmetricDifference a).find? s t
  size_sides : a.size + b.size = (a.union b).size + (a.intersection b).size
  size_symmetricDifference :
    (a.symmetricDifference b).size + (a.intersection b).size = (a.union b).size

/-- Intersection and difference divide the pairs of the first side; the symmetric difference links what
the union links and the intersection does not, with the confidence of the only side that links it. -/
theorem setOperations_dividePairs (ha : a.Reachable) (hb : b.Reachable) : DividePairs a b where
  contains_iff s t := by
    rw [contains_intersection, contains_difference, ← and_or_left, and_iff_left (em _)]
  not_both s t := by
    rw [contains_intersection, contains_difference]
    tauto
  size_parts := ha.sized.intersection_add_difference b
  contains_symmetricDifference s t := by
    rw [contains_symmetricDifference, contains_union, contains_intersection]
    tauto
  find?_symmetricDifference s t c := find?_symmetricDifference_eq_some a b
  symmetricDifference_comm s t := by
    refine Option.ext fun c => ?_
    rw [find?_symmetricDifference_eq_some, find?_symmetricDifference_eq_some, or_comm]
  size_sides := by
    have hright := Sized.intersection_add_difference_right a hb.sized
    have hunion := ha.sized.add_difference b
    omega
  size_symmetricDifference := ha.sized.symmetricDifference_add_intersection b

/-- A row on both sides, rows on one side only, an empty row, and a confidence that is no number. -/
theorem setOperations_dividePairs_sample :
    let a := (empty.addRow "q" ∅).addAll [⟨"s", "t", 0.5⟩, ⟨"s", "u", 0 / 0⟩, ⟨"r", "t", 1⟩]
    let b := (ofList [⟨"s", "t", 0.25⟩, ⟨"q", "t", 0.75⟩]).add "s" "v" 2
    a.Reachable ∧ b.Reachable ∧ DividePairs a b ∧ (a.union b).size = 5 := by
  intro a b
  have ha : a.Reachable :=
    .add (.add (.add (.addRow .empty "q" ∅) "s" "t" 0.5) "s" "u" (0 / 0)) "r" "t" 1
  have hb : b.Reachable := .add (.ofList _) "s" "v" 2
  exact ⟨ha, hb, setOperations_dividePairs ha hb, by decide +kernel⟩

end LinkDiscovery.Links
