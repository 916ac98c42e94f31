import LinkDiscovery.Decimal.Shortest
import LinkDiscovery.Proofs.Double.Packing
/-!
Rounding to the nearest double. A significand with its residual bits describes an exact number; a
number between the ends of a double's interval is rounded to that double.
-/

namespace LinkDiscovery.Double

open Float.Model Float.Model.UnpackedFloat

/-- The exact number lies where the residual bits say, between the significand and its successor. -/
def Describes (em : ExtendedMantissa) (x : ℚ) : Prop :=
  match em.roundBit, em.stickyBit with
  | false, false => x = em.mantissa
  | false, true => em.mantissa < x ∧ x < em.mantissa + 1 / 2
  | true, false => x = em.mantissa + 1 / 2
  | true, true => em.mantissa + 1 / 2 < x ∧ x < em.mantissa + 1

theorem Describes.floor {em : ExtendedMantissa} {x : ℚ} (h : Describes em x) :
    em.mantissa ≤ x ∧ x < em.mantissa + 1 := by
  obtain ⟨m, r, s⟩ := em
  cases r <;> cases s <;> simp only [Describes] at h <;> constructor <;> linarith

theorem Describes.shiftRightOne {em : ExtendedMantissa} {x : ℚ} (h : Describes em x) :
    Describes em.shiftRightOne (x / 2) := by
  obtain ⟨m, r, s⟩ := em
  rcases Nat.even_or_odd' m with ⟨k, rfl | rfl⟩
  · have hodd : (2 * k % 2 != 0) = false := by simp
    have hhalf : 2 * k / 2 = k := by omega
    simp only [ExtendedMantissa.shiftRightOne, hodd, hhalf]
    cases r <;> cases s <;> simp only [Describes, Bool.or_false, Bool.or_true] at h ⊢ <;>
      push_cast at h <;> first | linarith | (constructor <;> linarith)
  · have hodd : ((2 * k + 1) % 2 != 0) = true := by
      have : (2 * k + 1) % 2 = 1 := by omega
      simp [this]
    have hhalf : (2 * k + 1) / 2 = k := by omega
    simp only [ExtendedMantissa.shiftRightOne, hodd, hhalf]
    cases r <;> cases s <;> simp only [Describes, Bool.or_false, Bool.or_true] at h ⊢ <;>
      push_cast at h <;> first | linarith | (constructor <;> linarith)

theorem Describes.shiftRight {em : ExtendedMantissa} {x : ℚ} (h : Describes em x) (n : ℕ) :
    Describes (em >>> n) (x / 2 ^ n) := by
  induction n with
  | zero =>
      rw [pow_zero, div_one]
      exact h
  | succ n ih =>
      have hstep := ih.shiftRightOne
      rw [div_div, ← pow_succ] at hstep
      exact hstep

/-- A number that is at most a half away from an integer is rounded to it; at exactly a half the
integer is even. -/
theorem roundedMantissa_eq {em : ExtendedMantissa} {x : ℚ} (h : Describes em x) {n : ℕ}
    (hlow : (n : ℚ) - 1 / 2 ≤ x) (hhigh : x ≤ n + 1 / 2)
    (htie : n % 2 = 1 → (n : ℚ) - 1 / 2 < x ∧ x < n + 1 / 2) : em.roundedMantissa = n := by
  obtain ⟨m, r, s⟩ := em
  cases r <;> cases s <;> simp only [Describes] at h <;>
    simp only [ExtendedMantissa.roundedMantissa, ExtendedMantissa.accuracy,
      Accuracy.roundToNearestEven]
  · have h₁ : (m : ℚ) < n + 1 := by linarith
    have h₂ : (n : ℚ) < m + 1 := by linarith
    norm_cast at h₁ h₂
    omega
  · have h₁ : (m : ℚ) < n + 1 := by linarith
    have h₂ : (n : ℚ) < m + 1 := by linarith
    norm_cast at h₁ h₂
    omega
  · have h₁ : (m : ℚ) ≤ n := by linarith
    have h₂ : (n : ℚ) ≤ m + 1 := by linarith
    norm_cast at h₁ h₂
    by_cases hodd : n % 2 = 1
    · obtain ⟨hl, hh⟩ := htie hodd
      have h₁ : (m : ℚ) < n := by linarith
      have h₂ : (n : ℚ) < m + 1 := by linarith
      norm_cast at h₁ h₂
      omega
    · omega
  · have h₁ : (m : ℚ) < n := by linarith
    have h₂ : (n : ℚ) < m + 2 := by linarith
    norm_cast at h₁ h₂
    omega

theorem describes_accuracy (m : ℕ) (acc : Accuracy) {δ : ℚ}
    (h : match acc with
      | .exact => δ = 0
      | .inexact .lt => 0 < δ ∧ δ < 1 / 2
      | .inexact .eq => δ = 1 / 2
      | .inexact .gt => 1 / 2 < δ ∧ δ < 1) :
    Describes (.ofMantissaAndAccuracy m acc) (m + δ) := by
  rcases acc with _ | (_ | _ | _) <;>
    simp only [ExtendedMantissa.ofMantissaAndAccuracy, Describes] at h ⊢ <;>
    first | linarith | (constructor <;> linarith)

/-! The exponent that rounding aims at. -/

theorem targetExponent_eq (t : ℤ) : Format.binary64.targetExponent t = max (t - 53) (-1074) := rfl

/-- The number lies in the interval of a double. -/
def Covers (m : ℕ) (e : ℤ) (y : ℚ) : Prop :=
  (m : ℚ) - (if m = 2 ^ 52 ∧ e ≠ -1074 then 1 / 4 else 1 / 2) ≤ y ∧ y ≤ m + 1 / 2 ∧
    (m % 2 = 1 → (m : ℚ) - 1 / 2 < y ∧ y < m + 1 / 2)

theorem Covers.low {m : ℕ} {e : ℤ} {y : ℚ} (h : Covers m e y) : (m : ℚ) - 1 / 2 ≤ y := by
  have := h.1
  split at this <;> linarith

theorem Covers.reaches {m : ℕ} {e : ℤ} {y : ℚ} (h : Covers m e y) (hm : 2 ^ 52 ≤ m) :
    (2 : ℚ) ^ (51 : ℤ) ≤ y := by
  have hm : (4503599627370496 : ℚ) ≤ m := by exact_mod_cast hm
  have hpower : (2 : ℚ) ^ (51 : ℤ) = 2251799813685248 := by norm_num
  rw [hpower]
  linarith [h.low]

theorem totalExponent_bounds {m : ℕ} {x : ℚ} (hm : m ≠ 0) (hx : (m : ℚ) ≤ x ∧ x < m + 1) (e : ℤ) :
    (2 : ℚ) ^ (totalExponent m e - 1) ≤ x * 2 ^ e ∧ x * 2 ^ e < 2 ^ totalExponent m e := by
  have hlow : ((2 ^ m.log2 : ℕ) : ℚ) ≤ x := le_trans (by exact_mod_cast Nat.log2_self_le hm) hx.1
  have hhigh : x < ((2 ^ (m.log2 + 1) : ℕ) : ℚ) := by
    have hlt : m + 1 ≤ 2 ^ (m.log2 + 1) := Nat.lt_log2_self
    exact lt_of_lt_of_le hx.2 (by exact_mod_cast hlt)
  have hpos : (0 : ℚ) < 2 ^ e := by positivity
  have h₁ : totalExponent m e - 1 = (m.log2 : ℤ) + e := by rw [totalExponent]; ring
  have h₂ : totalExponent m e = ((m.log2 + 1 : ℕ) : ℤ) + e := by rw [totalExponent]; push_cast; ring
  rw [h₁, h₂, zpow_add₀ two_ne_zero, zpow_add₀ two_ne_zero, zpow_natCast, zpow_natCast]
  push_cast at hlow hhigh ⊢
  exact ⟨mul_le_mul_of_nonneg_right hlow hpos.le, mul_lt_mul_of_pos_right hhigh hpos⟩

theorem lt_of_zpow_bounds {a b : ℤ} {v : ℚ} (ha : (2 : ℚ) ^ a ≤ v) (hb : v < 2 ^ b) : a < b :=
  (zpow_lt_zpow_iff_right₀ one_lt_two).mp (lt_of_le_of_lt ha hb)

/-- A number in the interval of a double has the exponent of the double or, just below the first
double of a binade, the one before. -/
theorem target_cases {m : ℕ} {e : ℤ} {x : ℚ} (hx : (m : ℚ) ≤ x ∧ x < m + 1) {M : ℕ} {E : ℤ} {y : ℚ}
    (hM : Canonical M E) (hy : Covers M E y) (hv : x * 2 ^ e = y * 2 ^ E)
    (he : e ≤ Format.binary64.targetExponent (totalExponent m e)) :
    Format.binary64.targetExponent (totalExponent m e) = E ∨
      M = 2 ^ 52 ∧ Format.binary64.targetExponent (totalExponent m e) = E - 1 ∧ y < 2 ^ 52 := by
  have hpos : (0 : ℚ) < 2 ^ E := by positivity
  have hhigh : y < 2 ^ 53 := by
    have h : M + 1 ≤ 2 ^ 53 := hM.lt
    have h : (M : ℚ) + 1 ≤ 2 ^ 53 := by exact_mod_cast h
    linarith [hy.2.1]
  have hbelow : x * 2 ^ e < 2 ^ (53 + E) := by
    rw [hv, zpow_add₀ two_ne_zero]
    exact mul_lt_mul_of_pos_right (by exact_mod_cast hhigh) hpos
  -- how far up the number reaches, given that it reaches some power of two
  have habove (k : ℤ) (hk : (2 : ℚ) ^ k ≤ y) : 2 ^ (k + E) ≤ x * 2 ^ e := by
    rw [hv, zpow_add₀ two_ne_zero]
    exact mul_le_mul_of_nonneg_right hk hpos.le
  have hleast := hM.least
  rw [targetExponent_eq] at he ⊢
  by_cases hm : m = 0
  · subst hm
    have hone : x * 2 ^ e < 2 ^ e := by
      have hlt : x < 1 := by simpa using hx.2
      simpa using mul_lt_mul_of_pos_right hlt (by positivity : (0 : ℚ) < 2 ^ e)
    have htotal : totalExponent 0 e = 1 + e := by simp [totalExponent]
    rw [htotal] at he ⊢
    rcases hM.normal with hnormal | rfl
    · have := lt_of_zpow_bounds (habove 51 (hy.reaches hnormal)) hone
      omega
    · left
      omega
  · obtain ⟨hfrom, hto⟩ := totalExponent_bounds hm hx e
    have hle := lt_of_zpow_bounds hfrom hbelow
    by_cases hE : E = -1074
    · left
      omega
    · have hnormal := hM.normal.resolve_right hE
      by_cases hstart : (2 : ℚ) ^ 52 ≤ y
      · have := lt_of_zpow_bounds (habove 52 (by exact_mod_cast hstart)) hto
        left
        omega
      · have hreach := lt_of_zpow_bounds (habove 51 (hy.reaches hnormal)) hto
        have hunder : x * 2 ^ e < 2 ^ (52 + E) := by
          rw [hv, zpow_add₀ two_ne_zero]
          exact mul_lt_mul_of_pos_right (by exact_mod_cast not_le.mp hstart) hpos
        have hle' := lt_of_zpow_bounds hfrom hunder
        have hM'' : (M : ℚ) < 2 ^ 52 + 1 := by linarith [hy.low, not_le.mp hstart]
        have hM'' : M < 2 ^ 52 + 1 := by exact_mod_cast hM''
        refine .inr ⟨by omega, by omega, not_le.mp hstart⟩

theorem target_canonical {m : ℕ} {e : ℤ} (h : Canonical m e) :
    Format.binary64.targetExponent (totalExponent m e) = e := by
  rw [targetExponent_eq, totalExponent]
  have hleast := h.least
  rcases h.normal with hnormal | rfl
  · rw [log2_eq hnormal h.lt]
    push_cast
    omega
  · have := (Nat.log2_lt h.pos.ne').mpr h.lt
    omega

/-- A number in the interval of a double is rounded to it. -/
theorem roundWithAccuracy_eq (s : Sign) {m : ℕ} {e : ℤ} {acc : Accuracy} {x : ℚ}
    (hx : Describes (.ofMantissaAndAccuracy m acc) x) {M : ℕ} {E : ℤ} {y : ℚ}
    (hM : Canonical M E) (hy : Covers M E y) (hv : x * 2 ^ e = y * 2 ^ E)
    (he : e ≤ Format.binary64.targetExponent (totalExponent m e)) :
    roundWithAccuracy .binary64 s m e acc = .finite s M E hM.pos := by
  have hmantissa : (ExtendedMantissa.ofMantissaAndAccuracy m acc).mantissa = m := by
    rcases acc with _ | (_ | _ | _) <;> rfl
  have hfloor := hx.floor
  rw [hmantissa] at hfloor
  have hcases := target_cases hfloor hM hy hv he
  have hT : -1074 ≤ Format.binary64.targetExponent (totalExponent m e) := le_max_right _ _
  unfold roundWithAccuracy shiftToTargetExponent shiftToExponent
  generalize Format.binary64.targetExponent (totalExponent m e) = T at he hcases hT
  have hshift : e + ((T - e).toNat : ℤ) = T := by omega
  have hdescribes := hx.shiftRight (T - e).toNat
  have hquotient : x / 2 ^ (T - e).toNat * 2 ^ T = y * 2 ^ E := by
    rw [← hv]
    nth_rewrite 2 [← hshift]
    rw [zpow_add₀ two_ne_zero, zpow_natCast]
    field_simp
  simp only [hshift]
  generalize x / 2 ^ (T - e).toNat = q at hdescribes hquotient
  generalize ExtendedMantissa.ofMantissaAndAccuracy m acc >>> (T - e).toNat = em at hdescribes
  rcases hcases with rfl | ⟨rfl, rfl, hbelow⟩
  · obtain rfl : q = y := mul_right_cancel₀ (by positivity) hquotient
    have hrounded := roundedMantissa_eq hdescribes hy.low hy.2.1 hy.2.2
    simp only [hrounded, target_canonical hM, sub_self, Int.toNat_zero, Nat.cast_zero, add_zero]
    exact dif_neg hM.pos.ne'
  · -- rounding fills the binade below, so that one more digit is shifted out
    have hdouble : q = 2 * y := by
      have hpower : (2 : ℚ) ^ E = 2 * 2 ^ (E - 1) := by
        rw [zpow_sub_one₀ two_ne_zero]
        ring
      rw [hpower, ← mul_assoc] at hquotient
      rw [mul_right_cancel₀ (by positivity) hquotient]
      ring
    have hstart : E ≠ -1074 := by omega
    have hlow := hy.1
    rw [if_pos ⟨rfl, hstart⟩] at hlow
    have hrounded : em.roundedMantissa = 2 ^ 53 := by
      refine roundedMantissa_eq hdescribes ?_ ?_ (by norm_num)
      · rw [hdouble]
        push_cast at hlow ⊢
        linarith
      · rw [hdouble]
        push_cast
        linarith
    have htotal : totalExponent (2 ^ 53) (E - 1) = E + 53 := by
      rw [totalExponent, Nat.log2_two_pow]
      push_cast
      ring
    have hleast := hM.least
    have htarget : Format.binary64.targetExponent (E + 53) = E := by
      rw [targetExponent_eq]
      omega
    have hone : (E - (E - 1)).toNat = 1 := by omega
    have hhalf : (ExtendedMantissa.ofMantissaAndAccuracy (2 ^ 53) .exact >>> 1).mantissa = 2 ^ 52 :=
      rfl
    have hnext : E - 1 + ((1 : ℕ) : ℤ) = E := by omega
    simp only [hrounded, htotal, htarget, hone, hhalf, hnext]
    rfl

end LinkDiscovery.Double
