import LinkDiscovery.Proofs.Double.Order
import LinkDiscovery.Proofs.Double.Packing
/-!
The distance of two doubles does not depend on their order, and a finite double has none from itself.
Taking the absolute value forgets the sign, and rounding and packing treat both signs alike.
-/

namespace LinkDiscovery.Double

open Float.Model Float.Model.UnpackedFloat

/-! Rounding. -/

theorem abs_roundWithAccuracy (s : Sign) (m : ℕ) (e : ℤ) (acc : Accuracy) :
    (roundWithAccuracy .binary64 s m e acc).abs =
      roundWithAccuracy .binary64 .positive m e acc := by
  simp only [roundWithAccuracy]
  split <;> rfl

theorem abs_normalize (m e : ℤ) (s : Sign) :
    (UnpackedFloat.normalize .binary64 (-m) e s).abs =
      (UnpackedFloat.normalize .binary64 m e s).abs := by
  rcases lt_trichotomy m 0 with h | rfl | h
  · rw [UnpackedFloat.normalize, UnpackedFloat.normalize, compare_lt_iff_lt.mpr h,
      compare_gt_iff_gt.mpr (Int.neg_pos_of_neg h), UnpackedFloat.round, UnpackedFloat.round]
    exact ((abs_roundWithAccuracy _ _ _ _).trans (abs_roundWithAccuracy _ _ _ _).symm)
  · rfl
  · rw [UnpackedFloat.normalize, UnpackedFloat.normalize, compare_gt_iff_gt.mpr h,
      compare_lt_iff_lt.mpr (Int.neg_neg_of_pos h), Int.neg_neg, UnpackedFloat.round,
      UnpackedFloat.round]
    exact ((abs_roundWithAccuracy _ _ _ _).trans (abs_roundWithAccuracy _ _ _ _).symm)

theorem abs_sub_comm (u v : UnpackedFloat) :
    (UnpackedFloat.sub .binary64 u v).abs = (UnpackedFloat.sub .binary64 v u).abs := by
  rcases u with (_ | _) | _ | (_ | _) | ⟨s, m, e, hm⟩ <;>
    rcases v with (_ | _) | _ | (_ | _) | ⟨s', m', e', hm'⟩ <;> try rfl
  simp only [UnpackedFloat.sub]
  rw [← neg_sub, min_comm]
  exact abs_normalize _ _ _

/-! Packing. -/

theorem abs_unpack_packComponents (s : Sign) {e : BitVec 11} (he : e ≠ -1#11) (m : BitVec 52) :
    (UnpackedFloat.unpack .binary64 (packComponents .binary64 s e m)).abs =
      UnpackedFloat.unpack .binary64 (packComponents .binary64 .positive e m) := by
  by_cases hzero : e = 0#11
  · subst hzero
    by_cases hm : 0 < m.toNat
    · rw [unpack_subnormal s hm, unpack_subnormal .positive hm]
      rfl
    · obtain rfl : m = 0#52 := BitVec.eq_of_toNat_eq (by simpa using hm)
      rw [unpack_zero, unpack_zero]
      rfl
  · rw [unpack_normal s hzero he, unpack_normal .positive hzero he]
    rfl

theorem abs_unpack_pack (u : UnpackedFloat) :
    (Float.Model.pack u).unpack.abs = (Float.Model.pack u.abs).unpack := by
  change (UnpackedFloat.unpack .binary64 (UnpackedFloat.pack .binary64 u)).abs =
    UnpackedFloat.unpack .binary64 (UnpackedFloat.pack .binary64 u.abs)
  cases u with
  | notANumber => rfl
  | infinity s => cases s <;> rfl
  | zero s => cases s <;> rfl
  | finite s m e hm =>
      change _ = UnpackedFloat.unpack .binary64 (UnpackedFloat.pack .binary64
        (.finite .positive m e hm))
      simp only [UnpackedFloat.pack]
      split
      · cases s <;> rfl
      · rename_i hsmall
        split
        · exact abs_unpack_packComponents s (ofNat_ne_ones hsmall) _
        · exact abs_unpack_packComponents s (by decide) _

/-- The distance of two doubles is that of their unpacked forms, packed. -/
theorem distance_eq (x y : Float) :
    (x - y).abs = .ofModel (Float.Model.pack
      (UnpackedFloat.sub .binary64 x.toModel.unpack y.toModel.unpack).abs) := by
  change Float.ofModel (Float.Model.pack (Float.Model.pack
    (UnpackedFloat.sub .binary64 x.toModel.unpack y.toModel.unpack)).unpack.abs) = _
  rw [abs_unpack_pack, pack_unpack]

theorem distance_comm (x y : Float) : (x - y).abs = (y - x).abs := by
  rw [distance_eq, distance_eq, abs_sub_comm]

theorem distance_self {x : Float} (h : x.isFinite = true) : (x - x).abs = 0 := by
  change x.toModel.unpack.isFinite = true at h
  rw [distance_eq]
  cases hx : x.toModel.unpack with
  | notANumber => rw [hx] at h; cases h
  | infinity s => rw [hx] at h; cases h
  | zero s => cases s <;> rfl
  | finite s m e hm =>
      simp only [UnpackedFloat.sub, Int.sub_self, UnpackedFloat.normalize]
      rfl

end LinkDiscovery.Double
