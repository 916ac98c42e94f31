import LinkDiscovery.Proofs.Double.Sign
/-!
Differences and quotients that are numbers. A finite number can be taken from any number, and any number
can be divided by a finite one other than zero: only infinite numbers that cancel each other out and a
division of zero by zero give what is no number.
-/

namespace LinkDiscovery.Double

open Float.Model Float.Model.UnpackedFloat

theorem number_round (s : Sign) (m : ℕ) (e : ℤ) (acc : Accuracy) :
    (roundWithAccuracy .binary64 s m e acc).isNaN = false := by
  simp only [roundWithAccuracy]
  split <;> rfl

theorem number_normalize (m e : ℤ) (s : Sign) :
    (UnpackedFloat.normalize .binary64 m e s).isNaN = false := by
  rw [UnpackedFloat.normalize]
  split
  · exact number_round ..
  · rfl
  · exact number_round ..

theorem number_packComponents (s : Sign) {e : BitVec 11} (he : e ≠ -1#11) (m : BitVec 52) :
    (unpack .binary64 (packComponents .binary64 s e m)).isNaN = false := by
  by_cases hzero : e = 0#11
  · subst hzero
    by_cases hm : 0 < m.toNat
    · rw [unpack_subnormal s hm]
      rfl
    · obtain rfl : m = 0#52 := BitVec.eq_of_toNat_eq (by simpa using hm)
      rw [unpack_zero]
      rfl
  · rw [unpack_normal s hzero he]
    rfl

/-- Packing a number gives a number. -/
theorem number_pack {u : UnpackedFloat} (h : u.isNaN = false) :
    (Float.Model.pack u).unpack.isNaN = false := by
  change (unpack .binary64 (UnpackedFloat.pack .binary64 u)).isNaN = false
  cases u with
  | notANumber => cases h
  | zero s => exact congrArg UnpackedFloat.isNaN (unpack_zero s)
  | infinity s => exact congrArg UnpackedFloat.isNaN (unpack_infinity s)
  | finite s m e hm =>
      simp only [UnpackedFloat.pack]
      split
      · exact congrArg UnpackedFloat.isNaN (unpack_infinity s)
      · rename_i hsmall
        split
        · exact number_packComponents s (ofNat_ne_ones hsmall) _
        · exact number_packComponents s (by decide) _

variable {x c : Float}

theorem number_sub (hx : x.isNaN = false) (hc : c.isFinite = true) : (x - c).isNaN = false := by
  change x.toModel.unpack.isNaN = false at hx
  change c.toModel.unpack.isFinite = true at hc
  change (Float.Model.pack
    (UnpackedFloat.sub .binary64 x.toModel.unpack c.toModel.unpack)).unpack.isNaN = false
  refine number_pack ?_
  generalize x.toModel.unpack = u at hx ⊢
  generalize c.toModel.unpack = v at hc ⊢
  rcases u with (_ | _) | _ | (_ | _) | ⟨s, m, e, hm⟩ <;> try cases hx
  all_goals rcases v with (_ | _) | _ | (_ | _) | ⟨s', m', e', hm'⟩ <;> try cases hc
  all_goals try rfl
  exact number_normalize ..

theorem number_div (hx : x.isNaN = false) (hc : c.isFinite = true) (hpos : 0 < c) :
    (x / c).isNaN = false := by
  change x.toModel.unpack.isNaN = false at hx
  change c.toModel.unpack.isFinite = true at hc
  change (Float.Model.pack
    (UnpackedFloat.div .binary64 x.toModel.unpack c.toModel.unpack)).unpack.isNaN = false
  refine number_pack ?_
  rcases unpack_of_pos hpos with ⟨m', e', hm', hv⟩ | hv
  · rw [hv]
    generalize x.toModel.unpack = u at hx ⊢
    cases u with
    | notANumber => cases hx
    | zero s => rfl
    | infinity s => rfl
    | finite s m e hm => exact number_round ..
  · rw [hv] at hc
    cases hc

end LinkDiscovery.Double
