import LinkDiscovery.Proofs.Double.Counts
/-!
Shares of a whole. A whole that fits into a machine word does not become infinite, so that its shares lie
between zero and one, and the share of the whole itself is one. Counts up to `2 ^ 53` are doubles: a share
of such a whole is the exact share, rounded, and what is left of one is one again only if there is nothing
to take away.
-/

namespace LinkDiscovery.Double

open Float.Model Float.Model.UnpackedFloat Score

variable {m n : ℕ} {e k : ℤ}

namespace RoundsTo

/-- A double is rounded to itself. -/
theorem of_value (h : Canonical m e) : RoundsTo (m * 2 ^ e) m e := by
  refine ⟨h, ?_⟩
  rw [mul_div_cancel_right₀ _ (by positivity)]
  exact covers_self m e

theorem unique {v : ℚ} (h : RoundsTo v m e) (h' : RoundsTo v n k) : m = n ∧ e = k := by
  have hle := h.le h' le_rfl
  have hge := h'.le h le_rfl
  omega

end RoundsTo

/-- A count up to `2 ^ 53` is a double. -/
theorem value_of_exact (hn : 0 < n) (h : n ≤ 2 ^ 53) (hm : RoundsTo n m e) : (m * 2 ^ e : ℚ) = n := by
  obtain ⟨p, q, hp, hvalue⟩ : ∃ p q, Canonical p q ∧ (p * 2 ^ q : ℚ) = n := by
    rcases h.lt_or_eq with hlt | rfl
    · exact ⟨_, _, canonical_natural hn hlt, value_natural hn hlt⟩
    · refine ⟨2 ^ 52, 1, ⟨by norm_num, by norm_num, .inl le_rfl, by norm_num⟩, ?_⟩
      norm_num
  have hrounds : RoundsTo n p q := hvalue ▸ RoundsTo.of_value hp
  obtain ⟨rfl, rfl⟩ := hm.unique hrounds
  exact hvalue

/-- A count that fits into a machine word does not become infinite. -/
theorem toFloat_finite (hn : 0 < n) (h : n ≤ 2 ^ 64) : ∃ m e, ∃ hm : RoundsTo n m e,
    e ≤ 971 ∧ n.toFloat = ofParts .positive m e hm.canonical.pos := by
  obtain ⟨m, e, hm, heq⟩ := exists_toFloat hn
  have hcanonical : Canonical (2 ^ 52) 12 := ⟨by norm_num, by norm_num, .inl le_rfl, by norm_num⟩
  have hword : ((2 ^ 52 : ℕ) : ℚ) * 2 ^ (12 : ℤ) = (2 ^ 64 : ℕ) := by norm_num
  have hle := hm.le (hword ▸ RoundsTo.of_value hcanonical) (by exact_mod_cast h)
  exact ⟨m, e, hm, by omega, heq⟩

/-- A share of a whole is the share that the double of the part has in the double of the whole, rounded. -/
theorem div_toFloat (hm : 0 < m) (hmn : m ≤ n) (h : n ≤ 2 ^ 64) :
    ∃ M E N K, RoundsTo m M E ∧ RoundsTo n N K ∧ ∃ p q,
      ∃ hp : RoundsTo (M * 2 ^ E / (N * 2 ^ K)) p q,
        m.toFloat / n.toFloat = ofParts .positive p q hp.canonical.pos := by
  obtain ⟨M, E, hM, hE, hmeq⟩ := toFloat_finite hm (hmn.trans h)
  obtain ⟨N, K, hN, hK, hneq⟩ := toFloat_finite (hm.trans_le hmn) h
  obtain ⟨p, q, hp⟩ := RoundsTo.exists_of_le (least_le_div (one_le_value hm hM) hN.canonical hK)
  refine ⟨M, E, N, K, hM, hN, p, q, hp, ?_⟩
  rw [hmeq, hneq]
  change Float.ofModel (Float.Model.pack (div .binary64 (ofParts .positive M E _).toModel.unpack
    (ofParts .positive N K _).toModel.unpack)) = _
  rw [unpack_ofParts _ hM.canonical hE, unpack_ofParts _ hN.canonical hK,
    div_finite hM.canonical hN.canonical hp]

/-- A share of a whole that is counted exactly is the exact share, rounded. -/
theorem div_exact (hm : 0 < m) (hmn : m ≤ n) (h : n ≤ 2 ^ 53) : ∃ p q,
    ∃ hp : RoundsTo (m / n : ℚ) p q, m.toFloat / n.toFloat = ofParts .positive p q hp.canonical.pos := by
  have hword : n ≤ 2 ^ 64 := h.trans (by norm_num)
  obtain ⟨M, E, N, K, hM, hN, p, q, hp, heq⟩ := div_toFloat hm hmn hword
  rw [value_of_exact hm (hmn.trans h) hM, value_of_exact (hm.trans_le hmn) h hN] at hp
  exact ⟨p, q, hp, heq⟩

theorem zero_div_toFloat (hn : 0 < n) (h : n ≤ 2 ^ 64) : (0 : ℕ).toFloat / n.toFloat = 0 := by
  obtain ⟨N, K, hN, hK, hneq⟩ := toFloat_finite hn h
  rw [hneq]
  change Float.ofModel (Float.Model.pack (div .binary64 (.zero .positive)
    (ofParts .positive N K _).toModel.unpack)) = _
  rw [unpack_ofParts _ hN.canonical hK]
  rfl

/-- A share of a whole lies between zero and one. -/
theorem div_bounds (hmn : m ≤ n) (hn : 0 < n) (h : n ≤ 2 ^ 64) :
    IsUnsigned (m.toFloat / n.toFloat) ∧ m.toFloat / n.toFloat ≤ 1 := by
  rcases m.eq_zero_or_pos with rfl | hm
  · rw [zero_div_toFloat hn h]
    exact ⟨isUnsigned_zero, by decide⟩
  · obtain ⟨M, E, N, K, hM, hN, p, q, hp, heq⟩ := div_toFloat hm hmn h
    have hvalue := value_le hM.canonical hN.canonical (hM.le hN (by exact_mod_cast hmn))
    have hpositive : (0 : ℚ) < N * 2 ^ K := one_pos.trans_le (one_le_value hn hN)
    rw [heq, one_eq]
    exact ⟨ofParts_unsigned hp.canonical, ofParts_le hp.canonical roundsTo_one.canonical
      (hp.le roundsTo_one ((div_le_one₀ hpositive).mpr hvalue))⟩

/-- The share of the whole itself. -/
theorem div_self_toFloat (hn : 0 < n) (h : n ≤ 2 ^ 64) : n.toFloat / n.toFloat = 1 := by
  obtain ⟨M, E, N, K, hM, hN, p, q, hp, heq⟩ := div_toFloat hn le_rfl h
  obtain ⟨rfl, rfl⟩ := hM.unique hN
  have hpositive : (0 : ℚ) < M * 2 ^ E := one_pos.trans_le (one_le_value hn hM)
  have hone : RoundsTo 1 p q := div_self hpositive.ne' ▸ hp
  obtain ⟨rfl, rfl⟩ := hone.unique roundsTo_one
  rw [heq, one_eq]

/-! What is left of a whole. -/

/-- The share of one in the largest whole. -/
theorem roundsTo_least_share : RoundsTo (2 ^ (-53 : ℤ)) (2 ^ 52) (-105) := by
  have hcanonical : Canonical (2 ^ 52) (-105) :=
    ⟨by norm_num, by norm_num, .inl le_rfl, by norm_num⟩
  have hvalue : ((2 ^ 52 : ℕ) : ℚ) * 2 ^ (-105 : ℤ) = 2 ^ (-53 : ℤ) := by norm_num
  exact hvalue ▸ RoundsTo.of_value hcanonical

/-- The double before one is what the share of one in the largest whole leaves of one. -/
theorem roundsTo_before_one : RoundsTo (1 - 2 ^ (-53 : ℤ)) (2 ^ 53 - 1) (-53) := by
  have hcanonical : Canonical (2 ^ 53 - 1) (-53) :=
    ⟨by norm_num, by norm_num, .inl (by norm_num), by norm_num⟩
  have hvalue : ((2 ^ 53 - 1 : ℕ) : ℚ) * 2 ^ (-53 : ℤ) = 1 - 2 ^ (-53 : ℤ) := by norm_num
  exact hvalue ▸ RoundsTo.of_value hcanonical

theorem least_ratio_le (hm : 0 < m) (hn : 0 < n) (h : n ≤ 2 ^ 53) :
    (2 : ℚ) ^ (-53 : ℤ) ≤ m / n := by
  have hone : (1 : ℚ) ≤ m := by exact_mod_cast hm
  have hwhole : (n : ℚ) ≤ 2 ^ 53 := by exact_mod_cast h
  rw [le_div_iff₀ (by exact_mod_cast hn)]
  calc
    (2 : ℚ) ^ (-53 : ℤ) * n ≤ 2 ^ (-53 : ℤ) * 2 ^ 53 :=
      mul_le_mul_of_nonneg_left hwhole (by positivity)
    _ = 1 := by norm_num
    _ ≤ m := hone

theorem ratio_le_one (hmn : m ≤ n) (hn : 0 < n) : (m / n : ℚ) ≤ 1 := by
  rw [div_le_one₀ (by exact_mod_cast hn)]
  exact_mod_cast hmn

/-- What is left of one is less than one, however small the share that is taken away. -/
theorem not_one_le_one_sub (hm : 0 < m) (hmn : m ≤ n) (h : n ≤ 2 ^ 53) :
    ¬ 1 ≤ 1 - m.toFloat / n.toFloat := by
  have hn := hm.trans_le hmn
  obtain ⟨p, q, hp, heq⟩ := div_exact hm hmn h
  have horder := hp.le roundsTo_one (ratio_le_one hmn hn)
  have hlow := value_le roundsTo_least_share.canonical hp.canonical
    (roundsTo_least_share.le hp (least_ratio_le hm hn h))
  have hleast : ((2 ^ 52 : ℕ) : ℚ) * 2 ^ (-105 : ℤ) = 2 ^ (-53 : ℤ) := by norm_num
  obtain ⟨d, hd, hvalue, hsub⟩ := one_sub_finite hp.canonical horder
  have hle := normalize_le hd hp.canonical.least roundsTo_before_one (by linarith)
  have hbefore : ¬ (1 : Float) ≤ ofParts .positive (2 ^ 53 - 1) (-53) (by norm_num) := by decide
  rw [heq, one_sub_eq, unpack_ofParts _ hp.canonical (by omega), hsub]
  exact fun hone => hbefore (le_trans hone hle)

/-! Shares of wholes that may be empty. -/

/-- Shares lie between zero and one. -/
theorem share_bounds (hmn : m ≤ n) (h : n ≤ 2 ^ 64) : IsUnsigned (share m n) ∧ share m n ≤ 1 := by
  rw [share]
  split
  · exact ⟨isUnsigned_zero, by decide⟩
  · rename_i hn
    exact div_bounds hmn (Nat.pos_of_ne_zero hn) h

theorem share_zero (h : n ≤ 2 ^ 64) : share 0 n = 0 := by
  rw [share]
  split
  · rfl
  · rename_i hn
    exact zero_div_toFloat (Nat.pos_of_ne_zero hn) h

theorem share_self (hn : 0 < n) (h : n ≤ 2 ^ 64) : share n n = 1 := by
  rw [share, if_neg hn.ne', div_self_toFloat hn h]

/-- If taking a share away leaves one, the part was empty. -/
theorem eq_zero_of_one_sub_share (hmn : m ≤ n) (h : n ≤ 2 ^ 53) (hone : 1 - share m n = 1) :
    m = 0 := by
  by_contra hm
  have hpos := Nat.pos_of_ne_zero hm
  rw [share, if_neg (hpos.trans_le hmn).ne'] at hone
  have hle : (1 : Float) ≤ 1 := by decide
  exact not_one_le_one_sub hpos hmn h (hone.symm ▸ hle)

end LinkDiscovery.Double
