import LinkDiscovery.Proofs.Double.Arithmetic
import LinkDiscovery.Proofs.Double.Sign
/-!
Rounding keeps the order of numbers: every positive number that is not too small lies in the interval of
a double, and of two numbers the smaller one lies in the interval of a double that is not larger.
-/

namespace LinkDiscovery.Double

open Float.Model Float.Model.UnpackedFloat Score

/-- The number lies in the interval of the double. Exponents have no upper bound here. -/
structure RoundsTo (v : ℚ) (m : ℕ) (e : ℤ) : Prop where
  canonical : Canonical m e
  covers : Covers m e (v / 2 ^ e)

namespace RoundsTo

variable {v w : ℚ} {m n : ℕ} {e k : ℤ}

theorem value_eq (v : ℚ) (e : ℤ) : v = v / 2 ^ e * 2 ^ e :=
  (div_mul_cancel₀ v (by positivity)).symm

/-- The interval of a double whose exponent is not the least one begins a quarter of its last digit
below the first double of its binade. -/
theorem low (h : RoundsTo v m e) (he : -1074 < e) : (2 ^ 52 - 1 / 4) * 2 ^ e ≤ v := by
  have hm : 2 ^ 52 ≤ m := h.canonical.normal.resolve_right he.ne'
  have hquotient : (2 ^ 52 - 1 / 4 : ℚ) ≤ v / 2 ^ e := by
    have hlow := h.covers.1
    split at hlow
    · rename_i hfirst
      rw [hfirst.1] at hlow
      exact_mod_cast hlow
    · rename_i hfirst
      have hnext : 2 ^ 52 + 1 ≤ m := by omega
      have hnext : (2 ^ 52 + 1 : ℚ) ≤ m := by exact_mod_cast hnext
      linarith
  rwa [le_div_iff₀ (by positivity)] at hquotient

/-- Of two numbers the smaller one is rounded to a double that is not larger. -/
theorem le (h : RoundsTo v m e) (h' : RoundsTo w n k) (hle : v ≤ w) : e < k ∨ e = k ∧ m ≤ n := by
  rcases lt_trichotomy e k with hlt | rfl | hgt
  · exact .inl hlt
  · refine .inr ⟨rfl, not_lt.mp fun hmn => ?_⟩
    -- the numbers could only meet where one interval ends and the next one begins
    have hquotients : v / 2 ^ e ≤ w / 2 ^ e := div_le_div_of_nonneg_right hle (by positivity)
    have hnext : (n : ℚ) + 1 ≤ m := by exact_mod_cast hmn
    have hlow := h.covers.low
    have hhigh := h'.covers.2.1
    rcases Nat.even_or_odd m with hm | hm
    · have hn : n % 2 = 1 ∨ n + 1 < m := by
        have := Nat.even_iff.mp hm
        omega
      rcases hn with hn | hn
      · linarith [(h'.covers.2.2 hn).2]
      · have hn : (n : ℚ) + 1 < m := by exact_mod_cast hn
        linarith
    · linarith [(h.covers.2.2 (Nat.odd_iff.mp hm)).1]
  · exfalso
    have hleast := h'.canonical.least
    have hlow := h.low (by omega)
    have hlast : n ≤ 2 ^ 53 - 1 := Nat.le_sub_one_of_lt h'.canonical.lt
    have hhigh : w / 2 ^ k < 2 ^ 53 - 1 / 2 := by
      rcases hlast.lt_or_eq with hn | hn
      · have hn : (n : ℚ) + 1 ≤ 2 ^ 53 - 1 := by
          have hn : n + 1 + 1 ≤ 2 ^ 53 := by omega
          have hn : (n : ℚ) + 1 + 1 ≤ 2 ^ 53 := by exact_mod_cast hn
          linarith
        linarith [h'.covers.2.1]
      · have hodd := (h'.covers.2.2 (by omega)).2
        have hn : (n : ℚ) + 1 = 2 ^ 53 := by
          have hn : n + 1 = 2 ^ 53 := by omega
          exact_mod_cast hn
        linarith
    rw [div_lt_iff₀ (by positivity)] at hhigh
    have hpower : (2 : ℚ) * 2 ^ k ≤ 2 ^ e := by
      rw [← zpow_one_add₀ two_ne_zero]
      exact zpow_le_zpow_right₀ one_le_two (by omega)
    have hpositive : (0 : ℚ) < 2 ^ k := by positivity
    linarith

/-- A number has a nearest whole number; of two such numbers one is even. -/
theorem exists_nearest {q : ℚ} (hq : 0 ≤ q) : ∃ m : ℕ, ((m : ℚ) - 1 / 2 ≤ q ∧ q ≤ m + 1 / 2) ∧
    (m % 2 = 1 → (m : ℚ) - 1 / 2 < q ∧ q < m + 1 / 2) := by
  have hfloor := Nat.floor_le hq
  have hnext := Nat.lt_floor_add_one q
  obtain ⟨f, hf⟩ : ∃ f, ⌊q⌋₊ = f := ⟨_, rfl⟩
  rw [hf] at hfloor hnext
  have hcast : ((f + 1 : ℕ) : ℚ) = f + 1 := by push_cast; rfl
  rcases lt_trichotomy q (f + 1 / 2) with hhalf | hhalf | hhalf
  · exact ⟨f, ⟨by linarith, by linarith⟩, fun _ => ⟨by linarith, hhalf⟩⟩
  · rcases Nat.even_or_odd f with heven | hodd
    · refine ⟨f, ⟨by linarith, by linarith⟩, fun h => ?_⟩
      have := Nat.even_iff.mp heven
      omega
    · refine ⟨f + 1, ⟨by linarith, by linarith⟩, fun h => ?_⟩
      have := Nat.odd_iff.mp hodd
      omega
  · exact ⟨f + 1, ⟨by linarith, by linarith⟩, fun _ => ⟨by linarith, by linarith⟩⟩

/-- The exponent of the doubles around a number: it leaves the number all digits that are kept, unless it
is the least exponent. -/
theorem exists_exponent (h : (2 : ℚ) ^ (-1074 : ℤ) ≤ v) : ∃ e : ℤ, -1074 ≤ e ∧ 1 ≤ v / 2 ^ e ∧
    v / 2 ^ e < 2 ^ 53 ∧ (e ≠ -1074 → 2 ^ 52 ≤ v / 2 ^ e) := by
  have hv : 0 < v := lt_of_lt_of_le (by positivity) h
  obtain ⟨t, hlow, hhigh⟩ := exists_mem_Ico_zpow hv one_lt_two
  have ht : -1074 < t + 1 := lt_of_zpow_bounds h hhigh
  obtain ⟨e, he⟩ : ∃ e, max (t - 52) (-1074) = e := ⟨_, rfl⟩
  have hpositive : (0 : ℚ) < 2 ^ e := by positivity
  refine ⟨e, he ▸ le_max_right _ _, ?_, ?_, fun hne => ?_⟩
  · rw [one_le_div hpositive]
    refine le_trans ?_ hlow
    exact zpow_le_zpow_right₀ one_le_two (by omega)
  · rw [div_lt_iff₀ hpositive]
    calc
      v < 2 ^ (t + 1) := hhigh
      _ ≤ 2 ^ (53 + e) := zpow_le_zpow_right₀ one_le_two (by omega)
      _ = 2 ^ 53 * 2 ^ e := by
        rw [zpow_add₀ two_ne_zero]
        norm_num
  · have hexponent : t = 52 + e := by omega
    rw [le_div_iff₀ hpositive]
    calc
      (2 : ℚ) ^ 52 * 2 ^ e = 2 ^ t := by
        rw [hexponent, zpow_add₀ two_ne_zero]
        norm_num
      _ ≤ v := hlow

/-- Every number from the least double upwards is rounded to one. -/
theorem exists_of_le (h : (2 : ℚ) ^ (-1074 : ℤ) ≤ v) : ∃ m e, RoundsTo v m e := by
  obtain ⟨e, hleast, hone, hsmall, hlarge⟩ := exists_exponent h
  obtain ⟨m, ⟨hlow, hhigh⟩, hodd⟩ := exists_nearest (zero_le_one.trans hone)
  have hm : m ≤ 2 ^ 53 := by
    have hm : (m : ℚ) < 2 ^ 53 + 1 := by linarith
    have hm : m < 2 ^ 53 + 1 := by exact_mod_cast hm
    omega
  rcases hm.lt_or_eq with hlt | rfl
  · have hpositive : 0 < m := by
      have hm : (0 : ℚ) < m := by linarith
      exact_mod_cast hm
    refine ⟨m, e, ⟨hpositive, hlt, ?_, hleast⟩, ?_, hhigh, hodd⟩
    · refine or_iff_not_imp_right.mpr fun hne => ?_
      have hm : (2 ^ 52 : ℚ) < m + 1 := by linarith [hlarge hne]
      have hm : 2 ^ 52 < m + 1 := by exact_mod_cast hm
      omega
    · split
      · rename_i hfirst
        rw [hfirst.1]
        push_cast
        linarith [hlarge hfirst.2]
      · exact hlow
  · -- rounding leads to the first double of the next binade
    have hhalf : v / 2 ^ (e + 1) = v / 2 ^ e / 2 := by
      rw [zpow_add_one₀ two_ne_zero, div_div]
    have hbelow : (2 : ℚ) ^ 53 = 2 * 2 ^ 52 := by norm_num
    push_cast at hlow
    refine ⟨2 ^ 52, e + 1, ⟨by positivity, by norm_num, .inl le_rfl, by omega⟩, ?_, ?_,
      fun hodd => by omega⟩
    · rw [if_pos ⟨rfl, by omega⟩, hhalf]
      push_cast
      linarith
    · rw [hhalf]
      push_cast
      linarith

end RoundsTo

end LinkDiscovery.Double
