import LinkDiscovery.Proofs.Double.Order
/-!
Doubles that are equal as numbers. They stand in the same place among all others, so that no comparison
tells them apart.
-/

namespace LinkDiscovery.Score

variable {a b : Float}

/-- Equal doubles are numbers in one position; only the two zeros are different doubles in one
position. -/
theorem beq_iff :
    (a == b) = true ↔ a.isNaN = false ∧ b.isNaN = false ∧ position a = position b := by
  have hcompare : (a == b) = true ↔
      (a.toModel.unpack.compare b.toModel.unpack == some .eq) = true := Iff.rfl
  rw [hcompare, model_compare]
  cases a.isNaN <;> cases b.isNaN <;> simp

theorem beq_of_le_of_le (hab : a ≤ b) (hba : b ≤ a) : a == b := by
  obtain ⟨ha, hb, hab⟩ := le_iff.mp hab
  obtain ⟨-, -, hba⟩ := le_iff.mp hba
  exact beq_iff.mpr ⟨ha, hb, le_antisymm hab hba⟩

theorem le_congr (h : a == b) (c : Float) : a ≤ c ↔ b ≤ c := by
  obtain ⟨ha, hb, hposition⟩ := beq_iff.mp h
  rw [le_iff, le_iff, ha, hb, hposition]

theorem le_congr_right (h : a == b) (c : Float) : c ≤ a ↔ c ≤ b := by
  obtain ⟨ha, hb, hposition⟩ := beq_iff.mp h
  rw [le_iff, le_iff, ha, hb, hposition]

theorem lt_congr (h : a == b) (c : Float) : c < a ↔ c < b := by
  obtain ⟨ha, hb, hposition⟩ := beq_iff.mp h
  rw [lt_iff, lt_iff, ha, hb, hposition]

end LinkDiscovery.Score
