import LinkDiscovery.Proofs.Double.Order
import LinkDiscovery.Proofs.Double.Packing
/-!
Numbers without a minus sign: zero, but not the zero that has a sign, and all that is above it. Sums and
products of such numbers are such numbers, and those that are equal as numbers are the same double.
-/

namespace LinkDiscovery.Double

open Float.Model Float.Model.UnpackedFloat

/-- An unpacked number without a minus sign. -/
def Unsigned : UnpackedFloat → Prop
  | .zero .positive | .finite .positive _ _ _ | .infinity .positive => True
  | _ => False

/-- Packing keeps the sign; what is too large for a double becomes infinite. -/
theorem unsigned_pack {u : UnpackedFloat} (h : Unsigned u) :
    Unsigned (Float.Model.pack u).unpack := by
  change Unsigned (unpack .binary64 (UnpackedFloat.pack .binary64 u))
  have hparts {e : BitVec 11} (he : e ≠ -1#11) (m : BitVec 52) :
      Unsigned (unpack .binary64 (packComponents .binary64 .positive e m)) := by
    by_cases hzero : e = 0#11
    · subst hzero
      by_cases hm : 0 < m.toNat
      · rw [unpack_subnormal _ hm]
        trivial
      · obtain rfl : m = 0#52 := BitVec.eq_of_toNat_eq (by simpa using hm)
        rw [unpack_zero]
        trivial
    · rw [unpack_normal _ hzero he]
      trivial
  cases u with
  | notANumber => cases h
  | zero s => exact (unpack_zero s).symm ▸ h
  | infinity s => exact (unpack_infinity s).symm ▸ h
  | finite s m e hm =>
      cases s with
      | negative => cases h
      | positive =>
          simp only [UnpackedFloat.pack]
          split
          · exact (unpack_infinity .positive).symm ▸ trivial
          · rename_i hsmall
            split
            · exact hparts (ofNat_ne_ones hsmall) _
            · exact hparts (by decide) _

theorem unsigned_round (m : ℕ) (e : ℤ) (acc : Accuracy) :
    Unsigned (roundWithAccuracy .binary64 .positive m e acc) := by
  simp only [roundWithAccuracy]
  split <;> trivial

theorem unsigned_mul {m : ℕ} {e : ℤ} (hm : 0 < m) {v : UnpackedFloat} (hv : Unsigned v) :
    Unsigned (mul .binary64 (.finite .positive m e hm) v) := by
  rcases v with (_ | _) | _ | (_ | _) | ⟨_ | _, m', e', _⟩ <;> try cases hv
  · trivial
  · trivial
  · exact unsigned_round _ _ _

theorem unsigned_add {u v : UnpackedFloat} (hu : Unsigned u) (hv : Unsigned v) :
    Unsigned (add .binary64 u v) := by
  rcases u with (_ | _) | _ | (_ | _) | ⟨_ | _, m, e, hm⟩ <;> try cases hu
  · rcases v with (_ | _) | _ | (_ | _) | ⟨_ | _, m', e', _⟩ <;> try cases hv
    all_goals trivial
  · rcases v with (_ | _) | _ | (_ | _) | ⟨_ | _, m', e', _⟩ <;> try cases hv
    all_goals trivial
  · rcases v with (_ | _) | _ | (_ | _) | ⟨_ | _, m', e', hm'⟩ <;> try cases hv
    · trivial
    · trivial
    · simp only [UnpackedFloat.add, Sign.apply, decreaseExponent]
      have hpos : 0 < m <<< (e - min e e').toNat + m' <<< (e' - min e e').toNat := by
        rw [Nat.shiftLeft_eq]
        positivity
      rw [← Nat.cast_add, UnpackedFloat.normalize, compare_gt_iff_gt.mpr (Int.natCast_pos.mpr hpos)]
      exact unsigned_round _ _ _

theorem add_comm_unpacked (u v : UnpackedFloat) : add .binary64 u v = add .binary64 v u := by
  rcases u with (_ | _) | _ | (_ | _) | ⟨s, m, e, hm⟩ <;>
    rcases v with (_ | _) | _ | (_ | _) | ⟨s', m', e', hm'⟩ <;> try rfl
  simp only [UnpackedFloat.add]
  rw [Int.add_comm, min_comm]

/-- A double that is a number without a minus sign. -/
def IsUnsigned (x : Float) : Prop :=
  Unsigned x.toModel.unpack

theorem unpack_zero_double : (0 : Float).toModel.unpack = .zero .positive := by
  rfl

theorem isUnsigned_zero : IsUnsigned 0 := by
  rw [IsUnsigned, unpack_zero_double]
  trivial

section

variable {x y : Float}

theorem position_eq (x : Float) : Score.position x =
    (Score.unpackedPosition? x.toModel.unpack).getD (toLex (0, toLex (0, 0))) := rfl

theorem IsUnsigned.nonneg (h : IsUnsigned x) : 0 ≤ x := by
  have hnumber : (0 : Float).isNaN = false := by rfl
  rw [Score.le_iff, position_eq, position_eq, unpack_zero_double, and_iff_right hnumber]
  change x.toModel.unpack.isNaN = false ∧ _
  unfold IsUnsigned at h
  generalize x.toModel.unpack = u at h ⊢
  rcases u with (_ | _) | _ | (_ | _) | ⟨_ | _, m, e, _⟩ <;> try cases h
  all_goals simp [UnpackedFloat.isNaN, Score.unpackedPosition?, Prod.Lex.toLex_le_toLex]

/-- What is above zero is finite and positive, or infinite. -/
theorem unpack_of_pos (h : 0 < x) :
    (∃ m e hm, x.toModel.unpack = .finite .positive m e hm) ∨
      x.toModel.unpack = .infinity .positive := by
  obtain ⟨-, -, hlt⟩ := Score.lt_iff.mp h
  rw [position_eq, position_eq, unpack_zero_double] at hlt
  generalize x.toModel.unpack = u at hlt ⊢
  rcases u with (_ | _) | _ | s | ⟨_ | _, m, e, hm⟩ <;>
    simp [Score.unpackedPosition?, Prod.Lex.toLex_lt_toLex] at hlt ⊢
  exact hm

theorem isUnsigned_of_pos (h : 0 < x) : IsUnsigned x := by
  rcases unpack_of_pos h with ⟨m, e, hm, hx⟩ | hx
  · rw [IsUnsigned, hx]
    trivial
  · rw [IsUnsigned, hx]
    trivial

/-- The sum of two numbers without a minus sign is one. -/
theorem IsUnsigned.add (hx : IsUnsigned x) (hy : IsUnsigned y) : IsUnsigned (x + y) :=
  unsigned_pack (unsigned_add hx hy)

/-- So is the product, if one factor is positive and finite. -/
theorem IsUnsigned.mul (hx : 0 < x) (hfinite : x.isFinite = true) (hy : IsUnsigned y) :
    IsUnsigned (x * y) := by
  change Unsigned (Float.Model.pack
    (UnpackedFloat.mul .binary64 x.toModel.unpack y.toModel.unpack)).unpack
  change x.toModel.unpack.isFinite = true at hfinite
  rcases unpack_of_pos hx with ⟨m, e, hm, hunpack⟩ | hunpack
  · rw [hunpack]
    exact unsigned_pack (unsigned_mul hm hy)
  · rw [hunpack] at hfinite
    cases hfinite

theorem sum_comm (x y : Float) : x + y = y + x := by
  change Float.ofModel (Float.Model.pack (UnpackedFloat.add .binary64 _ _)) = _
  rw [add_comm_unpacked]
  rfl

theorem IsUnsigned.eq_of_position (hx : IsUnsigned x) (hy : IsUnsigned y)
    (h : Score.position x = Score.position y) : x = y := by
  have hunpack : x.toModel.unpack = y.toModel.unpack := by
    rw [position_eq, position_eq] at h
    unfold IsUnsigned at hx hy
    generalize x.toModel.unpack = u at hx h ⊢
    generalize y.toModel.unpack = v at hy h ⊢
    rcases u with (_ | _) | _ | (_ | _) | ⟨_ | _, m, e, _⟩ <;> try cases hx
    all_goals rcases v with (_ | _) | _ | (_ | _) | ⟨_ | _, m', e', _⟩ <;> try cases hy
    all_goals simp_all [Score.unpackedPosition?]
  have hmodel : x.toModel = y.toModel := by
    rw [← pack_unpack x.toModel, hunpack, pack_unpack]
  exact congrArg Float.ofModel hmodel

/-- Of two numbers without a minus sign one is below the other, or they are the same double. -/
theorem IsUnsigned.eq_of_not_lt (hx : IsUnsigned x) (hy : IsUnsigned y) (hxy : ¬ x < y)
    (hyx : ¬ y < x) : x = y := by
  have hnx := Score.number_of_le_right hx.nonneg
  have hny := Score.number_of_le_right hy.nonneg
  obtain ⟨-, -, hle⟩ := Score.le_iff.mp ((Score.not_lt hnx hny).mp hxy)
  obtain ⟨-, -, hge⟩ := Score.le_iff.mp ((Score.not_lt hny hnx).mp hyx)
  exact hx.eq_of_position hy (le_antisymm hge hle)

end

end LinkDiscovery.Double
