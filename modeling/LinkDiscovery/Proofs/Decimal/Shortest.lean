import LinkDiscovery.Proofs.Double.Rounding
/-!
The search for the shortest decimal always ends, and it ends inside the interval of the double.
-/

namespace LinkDiscovery.Decimal

open Double

theorem powerRatio_pos (ten two : ℤ) : 0 < (powerRatio ten two).1 ∧ 0 < (powerRatio ten two).2 := by
  constructor <;> exact Nat.mul_pos (Nat.pow_pos (by norm_num)) (Nat.pow_pos (by norm_num))

theorem zpow_eq_div {a : ℚ} (ha : a ≠ 0) (k : ℤ) : a ^ k = a ^ k.toNat / a ^ (-k).toNat := by
  rw [← zpow_natCast, ← zpow_natCast, ← zpow_sub₀ ha]
  congr 1
  omega

theorem powerRatio_value (ten two : ℤ) :
    ((powerRatio ten two).1 : ℚ) / (powerRatio ten two).2 = 10 ^ ten / 2 ^ two := by
  rw [zpow_eq_div (by norm_num) ten, zpow_eq_div (by norm_num) two]
  simp only [powerRatio]
  push_cast [Nat.pow_eq]
  field_simp

/-- Powers of ten between powers of two: three of them are ten binary places at most, and 28 of them
93 at least. -/
theorem ten_zpow_le (k e : ℤ) (h : 0 ≤ k ∧ 10 * k ≤ 3 * e ∨ k ≤ 0 ∧ 93 * k ≤ 28 * e) :
    (10 : ℚ) ^ k ≤ 2 ^ e := by
  have hten : (0 : ℚ) ≤ 10 ^ k := by positivity
  have htwo : (0 : ℚ) ≤ 2 ^ e := by positivity
  rcases h with ⟨hk, hle⟩ | ⟨hk, hle⟩
  · rw [← pow_le_pow_iff_left₀ hten htwo (n := 3) (by norm_num)]
    calc
      ((10 : ℚ) ^ k) ^ 3 = (10 ^ 3) ^ k := by
        rw [← zpow_natCast, ← zpow_mul, mul_comm, zpow_mul]
        norm_num
      _ ≤ (2 ^ 10) ^ k := zpow_le_zpow_left₀ hk (by norm_num) (by norm_num)
      _ = 2 ^ (10 * k) := by rw [zpow_mul]; norm_num
      _ ≤ 2 ^ (e * 3) := zpow_le_zpow_right₀ one_le_two (by omega)
      _ = (2 ^ e) ^ 3 := by rw [zpow_mul]; norm_cast
  · rw [← pow_le_pow_iff_left₀ hten htwo (n := 28) (by norm_num)]
    obtain ⟨j, rfl⟩ : ∃ j : ℕ, k = -(j : ℤ) := ⟨(-k).toNat, by omega⟩
    have hpow : ((2 : ℚ) ^ 93) ^ j ≤ (10 ^ 28) ^ j := by
      gcongr
      norm_num
    calc
      ((10 : ℚ) ^ (-(j : ℤ))) ^ 28 = ((10 ^ 28) ^ j)⁻¹ := by
        rw [zpow_neg, zpow_natCast, inv_pow, ← pow_mul, ← pow_mul, mul_comm]
      _ ≤ ((2 ^ 93) ^ j)⁻¹ := inv_anti₀ (by positivity) hpow
      _ = 2 ^ (93 * -(j : ℤ)) := by
        rw [mul_neg, zpow_neg, ← pow_mul]
        norm_cast
      _ ≤ 2 ^ (e * 28) := zpow_le_zpow_right₀ one_le_two (by omega)
      _ = (2 ^ e) ^ 28 := by rw [zpow_mul]; norm_cast

theorem leadingPower_le {m : ℕ} {e : ℤ} (h : Canonical m e) (he : e ≤ 971) :
    (10 : ℚ) ^ (leadingPower m e - 19) ≤ 2 ^ (e - 2) := by
  have hlog : m.log2 < 53 := (Nat.log2_lt h.pos.ne').mpr h.lt
  have hleast := h.least
  apply ten_zpow_le
  unfold leadingPower
  omega

/-- The multiple that is chosen lies in the interval. -/
theorem multiple?_eq_some {r : Rounding} {tie : Tie} {ten : ℤ} {d : ℕ}
    (h : r.multiple? tie ten = some d) :
    0 < d ∧ (r.low : ℚ) ≤ d * (10 ^ ten / 2 ^ r.exponent) ∧
      d * (10 ^ ten / 2 ^ r.exponent) ≤ (r.high : ℚ) ∧
        (r.closed = false → (r.low : ℚ) < d * (10 ^ ten / 2 ^ r.exponent) ∧
          d * (10 ^ ten / 2 ^ r.exponent) < (r.high : ℚ)) := by
  rw [← powerRatio_value]
  have hden := (powerRatio_pos ten r.exponent).2
  unfold Rounding.multiple? at h
  generalize powerRatio ten r.exponent = ratio at h hden
  obtain ⟨num, den⟩ := ratio
  have hden' : (0 : ℚ) < den := by exact_mod_cast hden
  dsimp -zeta only at h
  extract_lets below inside at h
  -- whichever multiple is chosen, it has passed the test
  have hchosen : 0 < d ∧ inside d = true := by
    split at h
    · rename_i hbelow hnext
      obtain rfl := Option.some.inj h
      simpa using hbelow
    · rename_i hbelow hnext
      obtain rfl := Option.some.inj h
      exact ⟨Nat.succ_pos _, hnext⟩
    · cases h
    · rename_i hbelow hnext
      have hbelow : 0 < below ∧ inside below = true := by simpa using hbelow
      have hnext : 0 < below + 1 ∧ inside (below + 1) = true := ⟨Nat.succ_pos _, hnext⟩
      split at h
      · exact Option.some.inj h ▸ hbelow
      · exact Option.some.inj h ▸ hnext
      · split at h
        · exact Option.some.inj h ▸ hbelow
        · exact Option.some.inj h ▸ hnext
  refine ⟨hchosen.1, ?_⟩
  have hinside := hchosen.2
  simp only [inside] at hinside
  rw [← mul_div_assoc, le_div_iff₀ hden', div_le_iff₀ hden', lt_div_iff₀ hden', div_lt_iff₀ hden']
  split at hinside
  · rename_i hclosed
    obtain ⟨hlow, hhigh⟩ : r.low * den ≤ d * num ∧ d * num ≤ r.high * den := by
      simpa using hinside
    refine ⟨by exact_mod_cast hlow, by exact_mod_cast hhigh, ?_⟩
    simp [hclosed]
  · obtain ⟨hlow, hhigh⟩ : r.low * den < d * num ∧ d * num < r.high * den := by
      simpa using hinside
    have hlow : (r.low * den : ℚ) < d * num := by exact_mod_cast hlow
    have hhigh : (d * num : ℚ) < r.high * den := by exact_mod_cast hhigh
    exact ⟨hlow.le, hhigh.le, fun _ => ⟨hlow, hhigh⟩⟩

/-- A multiple is found as soon as the power of ten is at most a quarter of the double's unit. -/
theorem multiple?_isSome {m : ℕ} {e ten : ℤ} (hm : 0 < m) (tie : Tie)
    (h : (10 : ℚ) ^ ten ≤ 2 ^ (e - 2)) :
    ((Rounding.around m e).multiple? tie ten).isSome = true := by
  have hle : (powerRatio ten (e - 2)).1 ≤ (powerRatio ten (e - 2)).2 := by
    have hden := (powerRatio_pos ten (e - 2)).2
    have hden : (0 : ℚ) < (powerRatio ten (e - 2)).2 := by exact_mod_cast hden
    have hratio : ((powerRatio ten (e - 2)).1 : ℚ) / (powerRatio ten (e - 2)).2 ≤ 1 := by
      rw [powerRatio_value]
      exact div_le_one_of_le₀ h (by positivity)
    rw [div_le_iff₀ hden, one_mul] at hratio
    exact_mod_cast hratio
  have hnum := (powerRatio_pos ten (e - 2)).1
  unfold Rounding.multiple?
  have hexponent : (Rounding.around m e).exponent = e - 2 := rfl
  have hvalue : (Rounding.around m e).value = 4 * m := rfl
  have hlow : (Rounding.around m e).low + 1 ≤ 4 * m := by
    simp only [Rounding.around]
    split <;> omega
  have hhigh : (Rounding.around m e).high = 4 * m + 2 := rfl
  rw [hexponent, hvalue]
  generalize powerRatio ten (e - 2) = ratio at hle hnum
  obtain ⟨num, den⟩ := ratio
  dsimp -zeta only at hle hnum ⊢
  extract_lets below inside
  have hfloor : below * num ≤ 4 * m * den := Nat.div_mul_le_self _ _
  have hceil : 4 * m * den < (below + 1) * num :=
    (Nat.div_lt_iff_lt_mul hnum).mp (Nat.lt_succ_self _)
  have hpos : 0 < below := by
    have : den ≤ 4 * m * den := Nat.le_mul_of_pos_left _ (by omega)
    exact Nat.div_pos (by omega) hnum
  -- the multiple below is less than a quarter away, and the end of the interval a quarter at least
  have hstrict : (Rounding.around m e).low * den < below * num ∧
      below * num < (Rounding.around m e).high * den := by
    have hlow' := Nat.mul_le_mul_right den hlow
    rw [hhigh]
    rw [Nat.add_mul] at hlow' hceil ⊢
    omega
  have hinside : inside below = true := by
    simp only [inside]
    split <;> simp [hstrict.1, hstrict.2, hstrict.1.le, hstrict.2.le]
  have hfirst : (decide (0 < below) && inside below) = true := by
    simp [hpos, hinside]
  rw [hfirst]
  split
  · rfl
  · rfl
  · rename_i hfalse _
    cases hfalse
  · split
    · rfl
    · rfl
    · split <;> rfl

/-- The interval in quarters of the double's unit. -/
theorem covers_of_quarters {m : ℕ} {e : ℤ} (hm : 0 < m) {u : ℚ}
    (hlow : ((Rounding.around m e).low : ℚ) ≤ u) (hhigh : u ≤ (Rounding.around m e).high)
    (hopen : (Rounding.around m e).closed = false →
      ((Rounding.around m e).low : ℚ) < u ∧ u < (Rounding.around m e).high) :
    Covers m e (u / 4) := by
  have hhigh' : ((Rounding.around m e).high : ℚ) = 4 * m + 2 := by
    simp [Rounding.around]
  by_cases hstart : m = 2 ^ 52 ∧ e ≠ -1074
  · have hlow' : ((Rounding.around m e).low : ℚ) + 1 = 4 * m := by
      have : (Rounding.around m e).low + 1 = 4 * m := by
        have hif : m = Binary.binadeStart ∧ e ≠ -1074 := hstart
        simp only [Rounding.around, if_pos hif]
        omega
      exact_mod_cast this
    refine ⟨?_, by linarith, fun hodd => ?_⟩
    · rw [if_pos hstart]
      linarith
    · have := hstart.1
      omega
  · have hlow' : ((Rounding.around m e).low : ℚ) + 2 = 4 * m := by
      have : (Rounding.around m e).low + 2 = 4 * m := by
        have hif : ¬ (m = Binary.binadeStart ∧ e ≠ -1074) := hstart
        simp only [Rounding.around, if_neg hif]
        omega
      exact_mod_cast this
    refine ⟨?_, by linarith, fun hodd => ?_⟩
    · rw [if_neg hstart]
      linarith
    · obtain ⟨hl, hh⟩ := hopen (by simp [Rounding.around, hodd])
      constructor <;> linarith

/-- The shortest decimal of a double lies in the interval of the double. -/
theorem shortest_covers {m : ℕ} {e : ℤ} (h : Canonical m e) (he : e ≤ 971) (tie : Tie) :
    ∃ d ten, shortest tie m e = (d, ten) ∧ 0 < d ∧
      Covers m e (d * (10 ^ ten / 2 ^ e)) := by
  have hsearch : ∃ p ∈ (List.range 20).map fun i => leadingPower m e - Int.ofNat i,
      (((Rounding.around m e).multiple? tie p).map (·, p)).isSome = true := by
    refine ⟨leadingPower m e - 19, List.mem_map.mpr ⟨19, by simp, rfl⟩, ?_⟩
    rw [Option.isSome_map]
    exact multiple?_isSome h.pos tie (leadingPower_le h he)
  obtain ⟨⟨d, ten⟩, hfound⟩ := Option.isSome_iff_exists.mp (List.findSome?_isSome_iff.mpr hsearch)
  refine ⟨d, ten, ?_, ?_⟩
  · simp only [shortest]
    rw [hfound]
    rfl
  · obtain ⟨p, -, hp⟩ := List.exists_of_findSome?_eq_some hfound
    obtain ⟨d', hd', heq⟩ := Option.map_eq_some_iff.mp hp
    obtain ⟨rfl, rfl⟩ := Prod.mk.inj heq
    obtain ⟨hpos, hlow, hhigh, hopen⟩ := multiple?_eq_some hd'
    refine ⟨hpos, ?_⟩
    have hquarter : (d' : ℚ) * (10 ^ p / 2 ^ e) = d' * (10 ^ p / 2 ^ (e - 2)) / 4 := by
      rw [zpow_sub₀ two_ne_zero]
      field_simp
      norm_num
    rw [hquarter]
    exact covers_of_quarters h.pos hlow hhigh hopen

end LinkDiscovery.Decimal
