import LinkDiscovery.Proofs.Double.Rounding
/-!
Products, quotients and decimal numbers. Each of them is the exact number rounded, so that it is the
double whose interval the exact number lies in.
-/

namespace LinkDiscovery.Double

open Float.Model Float.Model.UnpackedFloat

variable {M : ℕ} {E : ℤ} {y : ℚ}

theorem covers_self (m : ℕ) (e : ℤ) : Covers m e m := by
  refine ⟨?_, by linarith, fun _ => ⟨by linarith, by linarith⟩⟩
  split <;> linarith

theorem le_target_of_large {m : ℕ} (hm : 2 ^ 52 ≤ m) (e : ℤ) :
    e ≤ Format.binary64.targetExponent (totalExponent m e) := by
  have hlog : 52 ≤ m.log2 := (Nat.le_log2 (by omega)).mpr hm
  rw [targetExponent_eq, totalExponent]
  omega

theorem mul_eq {s₁ s₂ : Sign} {m₁ m₂ : ℕ} {e₁ e₂ : ℤ} (h₁ : 0 < m₁) (h₂ : 0 < m₂)
    (hM : Canonical M E) (hy : Covers M E y)
    (hv : (m₁ * m₂ : ℚ) * 2 ^ (e₁ + e₂) = y * 2 ^ E) (hlarge : 2 ^ 52 ≤ m₁ * m₂) :
    mul .binary64 (.finite s₁ m₁ e₁ h₁) (.finite s₂ m₂ e₂ h₂) = .finite (s₁ * s₂) M E hM.pos := by
  have hx := describes_accuracy (m₁ * m₂) .exact rfl
  exact roundWithAccuracy_eq (s₁ * s₂) hx hM hy (by rw [← hv]; push_cast; ring)
    (le_target_of_large hlarge _)

theorem describes_fraction (q r d : ℕ) (hr : r < d) :
    Describes (.ofMantissaAndAccuracy q (accuracyOfFraction r d)) (q + r / d) := by
  have hd : (0 : ℚ) < d := by
    have : 0 < d := by omega
    exact_mod_cast this
  have hr' : (r : ℚ) < d := by exact_mod_cast hr
  apply describes_accuracy
  unfold accuracyOfFraction
  by_cases hzero : r = 0
  · simp [hzero]
  · have hpos : (0 : ℚ) < r := by
      have : 0 < r := by omega
      exact_mod_cast this
    rw [if_neg hzero]
    rcases lt_trichotomy (2 * r) d with h | h | h
    · rw [compare_lt_iff_lt.mpr h]
      have h : (2 * r : ℚ) < d := by exact_mod_cast h
      constructor
      · exact div_pos hpos hd
      · rw [div_lt_iff₀ hd]
        linarith
    · rw [compare_eq_iff_eq.mpr h]
      have h : (2 * r : ℚ) = d := by exact_mod_cast h
      field_simp
      linarith
    · rw [compare_gt_iff_gt.mpr h]
      have h : (d : ℚ) < 2 * r := by exact_mod_cast h
      constructor
      · rw [lt_div_iff₀ hd]
        linarith
      · rw [div_lt_iff₀ hd]
        linarith

theorem div_eq {s₁ s₂ : Sign} {m₁ m₂ : ℕ} {e₁ e₂ : ℤ} (h₁ : 0 < m₁) (h₂ : 0 < m₂)
    (hM : Canonical M E) (hy : Covers M E y)
    (hv : (m₁ / m₂ : ℚ) * 2 ^ (e₁ - e₂) = y * 2 ^ E) :
    div .binary64 (.finite s₁ m₁ e₁ h₁) (.finite s₂ m₂ e₂ h₂) = .finite (s₁ / s₂) M E hM.pos := by
  have hd : (0 : ℚ) < m₂ := by exact_mod_cast h₂
  simp only [UnpackedFloat.div, divCore]
  have hT : -1074 ≤ Format.binary64.targetExponent (totalExponent m₁ e₁ - totalExponent m₂ e₂) ∧
      (Format.binary64.targetExponent (totalExponent m₁ e₁ - totalExponent m₂ e₂) ≤ -1074 ∨
        Format.binary64.targetExponent (totalExponent m₁ e₁ - totalExponent m₂ e₂) =
          m₁.log2 + e₁ - (m₂.log2 + e₂) - 53) := by
    rw [targetExponent_eq, totalExponent, totalExponent]
    omega
  generalize Format.binary64.targetExponent (totalExponent m₁ e₁ - totalExponent m₂ e₂) = T at hT
  -- the dividend is shifted until the quotient has all the digits that are kept
  obtain ⟨n, hn⟩ : ∃ n, (e₁ - e₂ - min (e₁ - e₂) T).toNat = n := ⟨_, rfl⟩
  have hmin : min (e₁ - e₂) T = e₁ - e₂ - n := by omega
  rw [hmin] at hn ⊢
  rw [hn]
  have hx := describes_fraction (m₁ <<< n / m₂) (m₁ <<< n % m₂) m₂ (Nat.mod_lt _ h₂)
  refine roundWithAccuracy_eq _ hx hM hy ?_ ?_
  · have hdivision : ((m₁ <<< n / m₂ : ℕ) : ℚ) * m₂ + (m₁ <<< n % m₂ : ℕ) = m₁ * 2 ^ n := by
      rw [Nat.shiftLeft_eq]
      exact_mod_cast Nat.div_add_mod' (m₁ * 2 ^ n) m₂
    have hpower : (2 : ℚ) ^ (e₁ - e₂) = 2 ^ n * 2 ^ (e₁ - e₂ - n) := by
      rw [← zpow_natCast, ← zpow_add₀ two_ne_zero]
      congr 1
      ring
    rw [← hv, hpower, ← mul_assoc, ← mul_div_right_comm, ← hdivision]
    field_simp
  · by_cases hsmall : e₁ - e₂ - n ≤ -1074
    · rw [targetExponent_eq]
      omega
    · apply le_target_of_large
      rw [Nat.le_div_iff_mul_le h₂, Nat.shiftLeft_eq]
      have hlog₁ := Nat.log2_self_le h₁.ne'
      have hlog₂ : m₂ < 2 ^ (m₂.log2 + 1) := Nat.lt_log2_self
      have hdigits : 52 + (m₂.log2 + 1) ≤ m₁.log2 + n := by omega
      calc
        2 ^ 52 * m₂ ≤ 2 ^ 52 * 2 ^ (m₂.log2 + 1) := Nat.mul_le_mul_left _ hlog₂.le
        _ = 2 ^ (52 + (m₂.log2 + 1)) := (pow_add ..).symm
        _ ≤ 2 ^ (m₁.log2 + n) := Nat.pow_le_pow_right two_pos hdigits
        _ = 2 ^ m₁.log2 * 2 ^ n := pow_add ..
        _ ≤ m₁ * 2 ^ n := Nat.mul_le_mul_right _ hlog₁

/-! Whole numbers and powers of ten. -/

theorem canonical_natural {n : ℕ} (hpos : 0 < n) (hlt : n < 2 ^ 53) :
    Canonical (n * 2 ^ (52 - n.log2)) (n.log2 - 52) := by
  have hlog : n.log2 < 53 := (Nat.log2_lt hpos.ne').mpr hlt
  have hlow := Nat.log2_self_le hpos.ne'
  have hhigh : n < 2 ^ (n.log2 + 1) := Nat.lt_log2_self
  have hexponent : n.log2 + (52 - n.log2) = 52 := by omega
  refine ⟨by positivity, ?_, .inl ?_, by omega⟩
  · calc
      n * 2 ^ (52 - n.log2) < 2 ^ (n.log2 + 1) * 2 ^ (52 - n.log2) :=
        Nat.mul_lt_mul_of_pos_right hhigh (by positivity)
      _ = 2 ^ 53 := by rw [← pow_add]; congr 1; omega
  · calc
      2 ^ 52 = 2 ^ n.log2 * 2 ^ (52 - n.log2) := by rw [← pow_add, hexponent]
      _ ≤ n * 2 ^ (52 - n.log2) := Nat.mul_le_mul_right _ hlow

theorem value_natural {n : ℕ} (hpos : 0 < n) (hlt : n < 2 ^ 53) :
    ((n * 2 ^ (52 - n.log2) : ℕ) : ℚ) * 2 ^ ((n.log2 : ℤ) - 52) = n := by
  have hlog : n.log2 < 53 := (Nat.log2_lt hpos.ne').mpr hlt
  have hexponent : ((52 - n.log2 : ℕ) : ℤ) + ((n.log2 : ℤ) - 52) = 0 := by omega
  rw [Nat.cast_mul, Nat.cast_pow, Nat.cast_two, ← zpow_natCast, mul_assoc,
    ← zpow_add₀ two_ne_zero, hexponent, zpow_zero, mul_one]

/-- A whole number of at most 53 binary digits is a double. -/
theorem unpack_natural {n : ℕ} (hpos : 0 < n) (hlt : n < 2 ^ 53) :
    n.toUInt64.toFloat.toModel.unpack =
      .finite .positive (n * 2 ^ (52 - n.log2)) (n.log2 - 52) (canonical_natural hpos hlt).pos := by
  have hcanonical := canonical_natural hpos hlt
  have hlog : n.log2 < 53 := (Nat.log2_lt hpos.ne').mpr hlt
  have hnat : n.toUInt64.toNat = n := by
    simp only [Nat.toUInt64, UInt64.toNat_ofNat']
    omega
  have hround : UnpackedFloat.ofUInt64 .binary64 n.toUInt64 =
      .finite .positive (n * 2 ^ (52 - n.log2)) (n.log2 - 52) hcanonical.pos := by
    have hsign : compare (n : ℤ) 0 = .gt := compare_gt_iff_gt.mpr (by omega)
    have htarget : Format.binary64.targetExponent (totalExponent n 0) = n.log2 - 52 := by
      rw [targetExponent_eq, totalExponent]
      omega
    have hshift : ((0 : ℤ) - (n.log2 - 52)).toNat = 52 - n.log2 := by omega
    have hexponent : (0 : ℤ) - ((52 - n.log2 : ℕ) : ℤ) = n.log2 - 52 := by omega
    simp only [UnpackedFloat.ofUInt64, UnpackedFloat.ofNat, UnpackedFloat.ofInt,
      UnpackedFloat.normalize, hnat, hsign, UnpackedFloat.round, Int.toNat_natCast, htarget,
      decreaseExponent, hshift, hexponent]
    rw [Nat.shiftLeft_eq]
    exact roundWithAccuracy_eq _ (describes_accuracy _ .exact rfl) hcanonical
      (covers_self _ _) (by rw [add_zero]) (target_canonical hcanonical).ge
  change (Float.Model.pack (UnpackedFloat.ofUInt64 .binary64 n.toUInt64)).unpack = _
  rw [hround]
  exact unpack_pack ⟨hcanonical, by omega⟩

theorem unpack_of_exactValue {u : UnpackedFloat} {m : ℕ} {e : ℤ} (hm : 0 < m)
    (h : exactValue u = .finite false m e) : u = .finite .positive m e hm := by
  cases u with
  | infinity s => cases h
  | notANumber => cases h
  | zero s =>
      simp only [exactValue, Decimal.Binary.finite.injEq] at h
      omega
  | finite s m' e' _ =>
      simp only [exactValue, Decimal.Binary.finite.injEq] at h
      obtain ⟨hs, rfl, rfl⟩ := h
      cases s with
      | negative => cases hs
      | positive => rfl

/-- The power of ten that is looked up for small decimal exponents. -/
def powerOfTen (k : ℕ) (hk : k < 23) : Float :=
  Float.exactlyRepresentablePowersOfTen[k]

theorem exactValue_powers : ∀ k : Fin 23,
    Decimal.Binary.ofFloat (powerOfTen k.val k.isLt) =
        .finite false (10 ^ k.val * 2 ^ 52 / 2 ^ (10 ^ k.val).log2) ((10 ^ k.val).log2 - 52) ∧
      10 ^ k.val * 2 ^ 52 % 2 ^ (10 ^ k.val).log2 = 0 := by
  decide +kernel

/-- The powers of ten up to the twenty-second are doubles. -/
theorem unpack_power {k : ℕ} (hk : k < 23) :
    ∃ (m : ℕ) (e : ℤ) (hm : 0 < m), 2 ^ 52 ≤ m ∧ (m : ℚ) * 2 ^ e = 10 ^ k ∧
      (powerOfTen k hk).toModel.unpack = .finite .positive m e hm := by
  obtain ⟨hvalue, hexact⟩ := exactValue_powers ⟨k, hk⟩
  simp only at hvalue hexact
  have hlog := Nat.log2_self_le (n := 10 ^ k) (by positivity)
  have hlarge : 2 ^ 52 ≤ 10 ^ k * 2 ^ 52 / 2 ^ (10 ^ k).log2 := by
    rw [Nat.le_div_iff_mul_le (by positivity), mul_comm]
    exact Nat.mul_le_mul_right _ hlog
  have hpos : 0 < 10 ^ k * 2 ^ 52 / 2 ^ (10 ^ k).log2 := by omega
  refine ⟨_, (10 ^ k).log2 - 52, hpos, hlarge, ?_, ?_⟩
  · have hproduct := Nat.div_mul_cancel (Nat.dvd_of_mod_eq_zero hexact)
    have hproduct : ((10 ^ k * 2 ^ 52 / 2 ^ (10 ^ k).log2 : ℕ) : ℚ) * 2 ^ (10 ^ k).log2 =
        10 ^ k * 2 ^ 52 := by exact_mod_cast hproduct
    have hpower : (2 : ℚ) ^ (((10 ^ k).log2 : ℤ) - 52) = 2 ^ (10 ^ k).log2 / 2 ^ 52 := by
      rw [zpow_sub₀ two_ne_zero, zpow_natCast]
      norm_num
    rw [hpower, ← mul_div_assoc, hproduct]
    field_simp
  · rw [ofFloat_eq] at hvalue
    exact unpack_of_exactValue hpos hvalue

/-! Decimal numbers. -/

/-- The double with the given significand and exponent. -/
def ofParts (s : Sign) (m : ℕ) (e : ℤ) (hm : 0 < m) : Float :=
  .ofModel (Float.Model.pack (.finite s m e hm))

theorem unpack_ofParts (s : Sign) {m : ℕ} {e : ℤ} (h : Canonical m e) (he : e ≤ 971) :
    (ofParts s m e h.pos).toModel.unpack = .finite s m e h.pos :=
  unpack_pack ⟨h, he⟩

variable {n k : ℕ}

/-- A decimal number in the interval of a double is read as that double: first the case in which the
digits and the power of ten are doubles themselves. -/
theorem ofScientific_fast (hM : Canonical M E) (hy : Covers M E y) {negative : Bool} (hn : 0 < n)
    (hfast : n < 2 ^ 53 ∧ k ≤ 22)
    (hv : (if negative then (n : ℚ) / 10 ^ k else n * 10 ^ k) = y * 2 ^ E) :
    Float.ofScientific n negative k = ofParts .positive M E hM.pos := by
  obtain ⟨m, e, hm, hlarge, hpower, hunpack⟩ := unpack_power (Nat.lt_succ_of_le hfast.2)
  have hnatural := unpack_natural hn hfast.1
  have hcanonical := canonical_natural hn hfast.1
  have hvalue := value_natural hn hfast.1
  have hcompute : Float.ofScientific n negative k =
      if negative then n.toUInt64.toFloat / powerOfTen k (Nat.lt_succ_of_le hfast.2)
      else n.toUInt64.toFloat * powerOfTen k (Nat.lt_succ_of_le hfast.2) := by
    rw [Float.ofScientific, dif_pos hfast]
    rfl
  rw [hcompute]
  generalize powerOfTen k (Nat.lt_succ_of_le hfast.2) = power at hunpack ⊢
  cases negative with
  | true =>
      change Float.ofModel (Float.Model.pack (UnpackedFloat.div .binary64
        n.toUInt64.toFloat.toModel.unpack power.toModel.unpack)) = _
      rw [hnatural, hunpack, div_eq _ _ hM hy]
      · rfl
      · rw [zpow_sub₀ two_ne_zero, div_mul_div_comm, hvalue, hpower]
        exact hv
  | false =>
      change Float.ofModel (Float.Model.pack (UnpackedFloat.mul .binary64
        n.toUInt64.toFloat.toModel.unpack power.toModel.unpack)) = _
      rw [hnatural, hunpack, mul_eq _ _ hM hy]
      · rfl
      · rw [zpow_add₀ two_ne_zero, mul_mul_mul_comm, hvalue, hpower]
        exact hv
      · calc
          2 ^ 52 ≤ m := hlarge
          _ ≤ n * 2 ^ (52 - n.log2) * m := Nat.le_mul_of_pos_left _ hcanonical.pos

/-- In the other case the exact number is formed at once. -/
theorem ofScientific_slow (hM : Canonical M E) (hy : Covers M E y) {k : ℤ} (hn : 0 < n)
    (hv : (n : ℚ) * 10 ^ k = y * 2 ^ E) (hhigh : k ≤ 2048) (hlow : -(2048 + n.log2) ≤ k) :
    UnpackedFloat.ofScientific .binary64 n k = .finite .positive M E hM.pos := by
  have hhigh' : ¬ k > 2 ^ Format.binary64.exponentBits := not_lt.mpr hhigh
  have hlow' : ¬ k < -((2 ^ Format.binary64.exponentBits : ℤ) + n.log2) := not_lt.mpr hlow
  rw [UnpackedFloat.ofScientific, dif_neg hn.ne', if_neg hhigh', if_neg hlow']
  have hbits : Format.binary64.mantissaBits = 53 := rfl
  have hten : (10 : ℚ) ≠ 0 := by norm_num
  simp only [hbits]
  split
  · rename_i hk
    obtain ⟨j, rfl⟩ := Int.eq_ofNat_of_zero_le hk
    rw [mul_eq _ _ hM hy]
    · rfl
    · rw [← hv, Nat.shiftLeft_eq, Int.toNat_natCast, zpow_natCast]
      push_cast
      rw [zpow_neg]
      field_simp
      norm_num
    · have hpos : 0 < n * 10 ^ j := by positivity
      rw [Nat.shiftLeft_eq, Int.toNat_natCast]
      calc
        2 ^ 52 ≤ n * 10 ^ j * 2 ^ 53 := by omega
        _ = n * 2 ^ 53 * 10 ^ j := by ring
  · rename_i hk
    obtain ⟨j, rfl⟩ : ∃ j : ℕ, k = -(j : ℤ) := ⟨(-k).toNat, by omega⟩
    rw [div_eq _ _ hM hy]
    · rfl
    · rw [← hv, neg_neg, Int.toNat_natCast, zpow_neg, zpow_natCast]
      push_cast
      rw [mul_one, div_eq_mul_inv]

/-- A decimal number in the interval of a double is read as that double. -/
theorem ofScientific_eq (hM : Canonical M E) (hy : Covers M E y) (negative : Bool) (hn : 0 < n)
    (hv : (n : ℚ) * 10 ^ (if negative then -(k : ℤ) else k) = y * 2 ^ E)
    (hhigh : negative = false → k ≤ 2048) (hlow : negative = true → k ≤ 2048 + n.log2) :
    Float.ofScientific n negative k = ofParts .positive M E hM.pos := by
  by_cases hfast : n < 2 ^ 53 ∧ k ≤ 22
  · refine ofScientific_fast hM hy hn hfast ?_
    rw [← hv]
    cases negative with
    | true => simp [zpow_neg, div_eq_mul_inv]
    | false => simp
  · rw [Float.ofScientific, dif_neg hfast]
    cases negative with
    | true =>
        have hslow := ofScientific_slow hM hy (k := -(k : ℤ)) hn hv (by omega)
          (by have := hlow rfl; omega)
        have hpower : Int.negOfNat k = -(k : ℤ) := by cases k <;> rfl
        simp only [if_true, hpower, Float.Model.ofScientific, hslow]
        rfl
    | false =>
        have hslow := ofScientific_slow hM hy (k := (k : ℤ)) hn hv (by have := hhigh rfl; omega)
          (by omega)
        exact congrArg (fun u => Float.ofModel (Float.Model.pack u)) hslow

end LinkDiscovery.Double
