import LinkDiscovery.Proofs.Double.Monotone
/-!
Counts as doubles. They are rounded in their order, so that shares of a whole and what is left of a whole
are never above one.
-/

namespace LinkDiscovery.Double

open Float.Model Float.Model.UnpackedFloat Score

variable {m n : ℕ} {e k : ℤ} {x : Float}

/-- What is too large for a double becomes infinite. -/
theorem unpack_ofParts_large (s : Sign) (h : Canonical m e) (he : 971 < e) :
    (ofParts s m e h.pos).toModel.unpack = .infinity s := by
  have hlarge : 2 ^ Format.binary64.exponentBits ≤ (e + (Format.binary64.exponentBias : ℕ) +
      (Format.binary64.mantissaBitsWithoutImplicit : ℕ)).toNat + 1 := by
    change 2048 ≤ (e + 1023 + 52).toNat + 1
    omega
  change UnpackedFloat.unpack .binary64 (UnpackedFloat.pack .binary64 (.finite s m e h.pos)) = _
  rw [UnpackedFloat.pack, if_pos hlarge]
  exact unpack_infinity s

theorem ofParts_number (h : Canonical m e) : (ofParts .positive m e h.pos).isNaN = false := by
  change (ofParts .positive m e h.pos).toModel.unpack.isNaN = false
  by_cases he : e ≤ 971
  · rw [unpack_ofParts _ h he]
    rfl
  · rw [unpack_ofParts_large _ h (not_le.mp he)]
    rfl

theorem ofParts_unsigned (h : Canonical m e) : IsUnsigned (ofParts .positive m e h.pos) := by
  rw [IsUnsigned]
  by_cases he : e ≤ 971
  · rw [unpack_ofParts _ h he]
    trivial
  · rw [unpack_ofParts_large _ h (not_le.mp he)]
    trivial

/-- Positive doubles are in the order of their exponents and then of their significands. -/
theorem ofParts_le (h : Canonical m e) (h' : Canonical n k) (hle : e < k ∨ e = k ∧ m ≤ n) :
    ofParts .positive m e h.pos ≤ ofParts .positive n k h'.pos := by
  rw [le_iff, position_eq, position_eq]
  refine ⟨ofParts_number h, ofParts_number h', ?_⟩
  by_cases he : e ≤ 971 <;> by_cases hk : k ≤ 971
  · rw [unpack_ofParts _ h he, unpack_ofParts _ h' hk]
    simpa [unpackedPosition?, Prod.Lex.toLex_le_toLex] using hle
  · rw [unpack_ofParts _ h he, unpack_ofParts_large _ h' (not_le.mp hk)]
    simp [unpackedPosition?, Prod.Lex.toLex_le_toLex]
  · omega
  · rw [unpack_ofParts_large _ h (not_le.mp he), unpack_ofParts_large _ h' (not_le.mp hk)]

/-! The doubles of counts. -/

theorem least_le_natural (hn : 0 < n) : (2 : ℚ) ^ (-1074 : ℤ) ≤ n := by
  have hone : (1 : ℚ) ≤ n := by exact_mod_cast hn
  exact (zpow_le_one_of_nonpos₀ one_le_two (by norm_num)).trans hone

/-- A count is rounded. -/
theorem toFloat_eq {m : ℕ} {e : ℤ} (hn : 0 < n) (h : RoundsTo n m e) :
    n.toFloat = ofParts .positive m e h.canonical.pos := by
  refine ofScientific_eq h.canonical h.covers false hn ?_ (fun _ => by norm_num) nofun
  rw [← RoundsTo.value_eq]
  simp

theorem exists_toFloat (hn : 0 < n) : ∃ m e, ∃ h : RoundsTo n m e,
    n.toFloat = ofParts .positive m e h.canonical.pos := by
  obtain ⟨m, e, h⟩ := RoundsTo.exists_of_le (least_le_natural hn)
  exact ⟨m, e, h, toFloat_eq hn h⟩

theorem toFloat_unsigned (n : ℕ) : IsUnsigned n.toFloat := by
  rcases n.eq_zero_or_pos with rfl | hn
  · exact isUnsigned_zero
  · obtain ⟨m, e, h, heq⟩ := exists_toFloat hn
    exact heq ▸ ofParts_unsigned h.canonical

/-! Shares of a whole. -/

/-- Exact doubles are in the order of their exponents and significands. -/
theorem value_le (h : Canonical m e) (h' : Canonical n k) (hle : e < k ∨ e = k ∧ m ≤ n) :
    (m * 2 ^ e : ℚ) ≤ n * 2 ^ k := by
  rcases hle with hlt | ⟨rfl, hmn⟩
  · have hleast := h.least
    have hn : 2 ^ 52 ≤ n := h'.normal.resolve_right (by omega)
    have hn : (2 ^ 52 : ℚ) ≤ n := by exact_mod_cast hn
    have hm : (m : ℚ) ≤ 2 ^ 53 := by exact_mod_cast h.lt.le
    have hpower : (2 : ℚ) * 2 ^ e ≤ 2 ^ k := by
      rw [← zpow_one_add₀ two_ne_zero]
      exact zpow_le_zpow_right₀ one_le_two (by omega)
    calc
      (m * 2 ^ e : ℚ) ≤ 2 ^ 53 * 2 ^ e := mul_le_mul_of_nonneg_right hm (by positivity)
      _ = 2 ^ 52 * (2 * 2 ^ e) := by ring
      _ ≤ n * 2 ^ k := mul_le_mul hn hpower (by positivity) (by positivity)
  · have hmn : (m : ℚ) ≤ n := by exact_mod_cast hmn
    exact mul_le_mul_of_nonneg_right hmn (by positivity)

theorem roundsTo_one : RoundsTo 1 (2 ^ 52) (-52) := by
  refine ⟨⟨by norm_num, by norm_num, .inl le_rfl, by norm_num⟩, ?_⟩
  have hone : (1 : ℚ) / 2 ^ (-52 : ℤ) = ((2 ^ 52 : ℕ) : ℚ) := by norm_num
  rw [hone]
  exact covers_self _ _

theorem one_eq : (1 : Float) = ofParts .positive (2 ^ 52) (-52) roundsTo_one.canonical.pos :=
  toFloat_eq one_pos (by exact_mod_cast roundsTo_one)

theorem unpack_one :
    (1 : Float).toModel.unpack = .finite .positive (2 ^ 52) (-52) (by positivity) := by
  rfl

theorem one_le_value (hn : 0 < n) (h : RoundsTo n m e) : (1 : ℚ) ≤ m * 2 ^ e := by
  have hone : (1 : ℚ) ≤ n := by exact_mod_cast hn
  have hvalue := value_le roundsTo_one.canonical h.canonical (roundsTo_one.le h hone)
  norm_num at hvalue ⊢
  exact hvalue

theorem value_lt (h : Canonical m e) (he : e ≤ 971) : (m * 2 ^ e : ℚ) < 2 ^ (1024 : ℤ) := by
  have hm : (m : ℚ) < 2 ^ (53 : ℤ) := by exact_mod_cast h.lt
  calc
    (m * 2 ^ e : ℚ) < 2 ^ (53 : ℤ) * 2 ^ e := mul_lt_mul_of_pos_right hm (by positivity)
    _ = 2 ^ (53 + e) := (zpow_add₀ two_ne_zero _ _).symm
    _ ≤ 2 ^ (1024 : ℤ) := zpow_le_zpow_right₀ one_le_two (by omega)

theorem unsigned_div {u v : UnpackedFloat} (hu : Unsigned u) (hv : Unsigned v) :
    Unsigned (div .binary64 u v) ∨ div .binary64 u v = .notANumber := by
  rcases u with (_ | _) | _ | (_ | _) | ⟨_ | _, m, e, hm⟩ <;> try cases hu
  all_goals rcases v with (_ | _) | _ | (_ | _) | ⟨_ | _, m', e', hm'⟩ <;> try cases hv
  all_goals first | exact .inr rfl | exact .inl trivial | exact .inl (unsigned_round _ _ _)

/-- The quotient of two counts has no minus sign, unless it is no number. -/
theorem div_unsigned (m n : ℕ) :
    (m.toFloat / n.toFloat).isNaN = true ∨ IsUnsigned (m.toFloat / n.toFloat) := by
  rcases unsigned_div (toFloat_unsigned m) (toFloat_unsigned n) with h | h
  · exact .inr (unsigned_pack h)
  · refine .inl ?_
    change (Float.Model.pack (UnpackedFloat.div .binary64 _ _)).unpack.isNaN = true
    rw [h]
    rfl

theorem packed_zero_le_one : Float.ofModel (Float.Model.pack (.zero .positive)) ≤ 1 := by
  decide

/-- Zero divided by what has no minus sign is zero, unless it is no number. -/
theorem zero_div {u : UnpackedFloat} (hu : Unsigned u) :
    div .binary64 (.zero .positive) u = .notANumber ∨
      div .binary64 (.zero .positive) u = .zero .positive := by
  rcases u with (_ | _) | _ | (_ | _) | ⟨_ | _, m, e, hm⟩ <;> try cases hu
  all_goals first | exact .inl rfl | exact .inr rfl

/-- What is divided by a double is not too small for one if it is at least one. -/
theorem least_le_div (hone : (1 : ℚ) ≤ m * 2 ^ e) (hn : Canonical n k) (hk : k ≤ 971) :
    (2 : ℚ) ^ (-1074 : ℤ) ≤ m * 2 ^ e / (n * 2 ^ k) := by
  have hpositive : (0 : ℚ) < n := by exact_mod_cast hn.pos
  rw [le_div_iff₀ (by positivity)]
  calc
    (2 : ℚ) ^ (-1074 : ℤ) * (n * 2 ^ k) ≤ 2 ^ (-1074 : ℤ) * 2 ^ (1024 : ℤ) :=
      mul_le_mul_of_nonneg_left (value_lt hn hk).le (by positivity)
    _ ≤ 1 := by
      rw [← zpow_add₀ two_ne_zero]
      exact zpow_le_one_of_nonpos₀ one_le_two (by norm_num)
    _ ≤ m * 2 ^ e := hone

/-- The quotient of two doubles is the double that their exact quotient is rounded to. -/
theorem div_finite {p : ℕ} {q : ℤ} (hm : Canonical m e) (hn : Canonical n k)
    (h : RoundsTo (m * 2 ^ e / (n * 2 ^ k)) p q) :
    Float.ofModel (Float.Model.pack (div .binary64 (.finite .positive m e hm.pos)
      (.finite .positive n k hn.pos))) = ofParts .positive p q h.canonical.pos := by
  have hquotient : (m / n : ℚ) * 2 ^ (e - k) = m * 2 ^ e / (n * 2 ^ k) := by
    rw [zpow_sub₀ two_ne_zero]
    field_simp
  rw [div_eq _ _ h.canonical h.covers (hquotient.trans (RoundsTo.value_eq _ q))]
  rfl

/-- The quotient of a double, from one upwards, and a larger double is at most one. -/
theorem div_finite_le_one (hm : Canonical m e) (hn : Canonical n k) (hk : k ≤ 971)
    (horder : e < k ∨ e = k ∧ m ≤ n) (hone : (1 : ℚ) ≤ m * 2 ^ e) :
    Float.ofModel (Float.Model.pack (div .binary64 (.finite .positive m e hm.pos)
      (.finite .positive n k hn.pos))) ≤ 1 := by
  have hpositive : (0 : ℚ) < n := by exact_mod_cast hn.pos
  have hle : (m * 2 ^ e / (n * 2 ^ k) : ℚ) ≤ 1 := by
    rw [div_le_one₀ (by positivity)]
    exact value_le hm hn horder
  obtain ⟨p, q, hp⟩ := RoundsTo.exists_of_le (least_le_div hone hn hk)
  rw [div_finite hm hn hp, one_eq]
  exact ofParts_le hp.canonical roundsTo_one.canonical (hp.le roundsTo_one hle)

/-- The quotient of a count and a larger one is at most one, unless it is no number. -/
theorem div_le_one (h : m ≤ n) :
    (m.toFloat / n.toFloat).isNaN = true ∨ m.toFloat / n.toFloat ≤ 1 := by
  change (Float.Model.pack (div .binary64 m.toFloat.toModel.unpack n.toFloat.toModel.unpack)
      ).unpack.isNaN = true ∨ Float.ofModel (Float.Model.pack
        (div .binary64 m.toFloat.toModel.unpack n.toFloat.toModel.unpack)) ≤ 1
  rcases m.eq_zero_or_pos with rfl | hm
  · change (Float.Model.pack (div .binary64 (.zero .positive) _)).unpack.isNaN = true ∨
      Float.ofModel (Float.Model.pack (div .binary64 (.zero .positive) _)) ≤ 1
    rcases zero_div (toFloat_unsigned n) with h | h
    · rw [h]
      exact .inl rfl
    · rw [h]
      exact .inr packed_zero_le_one
  obtain ⟨M, E, hM, heq⟩ := exists_toFloat hm
  obtain ⟨N, K, hN, heq'⟩ := exists_toFloat (hm.trans_le h)
  have horder := hM.le hN (by exact_mod_cast h)
  rw [heq, heq']
  -- a count may be too large for a double, and then it becomes infinite
  by_cases hk : K ≤ 971
  · have he : E ≤ 971 := by omega
    rw [unpack_ofParts _ hM.canonical he, unpack_ofParts _ hN.canonical hk]
    exact .inr (div_finite_le_one hM.canonical hN.canonical hk horder (one_le_value hm hM))
  · rw [unpack_ofParts_large _ hN.canonical (not_le.mp hk)]
    by_cases he : E ≤ 971
    · rw [unpack_ofParts _ hM.canonical he]
      exact .inr packed_zero_le_one
    · rw [unpack_ofParts_large _ hM.canonical (not_le.mp he)]
      exact .inl rfl

/-- The share that a part has in a whole; nothing has a share in an empty whole. -/
def share (part whole : ℕ) : Float :=
  if whole = 0 then 0 else part.toFloat / whole.toFloat

/-- A share lies between zero and one, unless it is no number because the counts are too large. -/
theorem share_number_bounds (h : m ≤ n) :
    (share m n).isNaN = true ∨ IsUnsigned (share m n) ∧ share m n ≤ 1 := by
  rw [share]
  split
  · exact .inr ⟨isUnsigned_zero, by decide⟩
  · rcases div_le_one h with hnan | hle
    · exact .inl hnan
    · exact (div_unsigned m n).imp_right fun hunsigned => ⟨hunsigned, hle⟩

/-- Twice a number that is not among the least ones is rounded to the double of the next exponent. -/
theorem RoundsTo.double {v : ℚ} (h : RoundsTo v m e) (he : -1074 < e) : RoundsTo (2 * v) m (e + 1) := by
  have hquotient : 2 * v / 2 ^ (e + 1) = v / 2 ^ e := by
    rw [zpow_add_one₀ two_ne_zero]
    field_simp
  have hnormal : 2 ^ 52 ≤ m := h.canonical.normal.resolve_right he.ne'
  obtain ⟨hlow, hhigh, hodd⟩ := h.covers
  refine ⟨⟨h.canonical.pos, h.canonical.lt, .inl hnormal, by omega⟩,
    hquotient.symm ▸ ⟨?_, hhigh, hodd⟩⟩
  have hnot : ¬ e = -1074 ∧ ¬ e + 1 = -1074 := by omega
  simpa only [ne_eq, hnot, not_false_eq_true, and_true] using hlow

/-- Twice the double of a count is the double of twice the count. -/
theorem two_mul_toFloat (n : ℕ) : 2 * n.toFloat = (2 * n).toFloat := by
  rcases n.eq_zero_or_pos with rfl | hn
  · decide
  · obtain ⟨m, e, h, heq⟩ := exists_toFloat hn
    have hone : (1 : ℚ) ≤ n := by exact_mod_cast hn
    have horder := roundsTo_one.le h hone
    have hdouble : RoundsTo ((2 * n : ℕ) : ℚ) m (e + 1) := by
      push_cast
      exact h.double (by omega)
    have htwo : (2 : Float).toModel.unpack = .finite .positive (2 ^ 52) (-51) (by positivity) := by
      rfl
    rw [heq, toFloat_eq (by omega) hdouble]
    change Float.ofModel (Float.Model.pack (UnpackedFloat.mul .binary64
      (2 : Float).toModel.unpack _)) = _
    rw [htwo]
    by_cases he : e ≤ 971
    · rw [unpack_ofParts _ h.canonical he, mul_eq _ _ hdouble.canonical (covers_self m (e + 1))]
      · rfl
      · rw [show (-51 : ℤ) + e = (e + 1) - 52 by ring, zpow_sub₀ two_ne_zero]
        push_cast
        ring
      · exact Nat.le_mul_of_pos_right _ h.canonical.pos
    · rw [unpack_ofParts_large _ h.canonical (not_le.mp he)]
      have hagain := unpack_ofParts_large .positive hdouble.canonical (by omega)
      exact congrArg Float.ofModel ((congrArg Float.Model.pack hagain).symm.trans (pack_unpack _))

/-! What is left of a whole. -/

theorem log2_shiftLeft (hm : 0 < m) (d : ℕ) : (m <<< d).log2 = m.log2 + d := by
  rw [Nat.shiftLeft_eq]
  refine log2_eq ?_ ?_
  · rw [pow_add]
    exact Nat.mul_le_mul_right _ (Nat.log2_self_le hm.ne')
  · rw [Nat.add_right_comm, pow_add]
    exact Nat.mul_lt_mul_of_pos_right Nat.lt_log2_self (by positivity)

/-- A number with any exponent is rounded. -/
theorem round_eq (s : Sign) {w : ℚ} (hm : 0 < m) (h : RoundsTo w n k) (hw : w = m * 2 ^ e) :
    UnpackedFloat.round .binary64 s m e = .finite s n k h.canonical.pos := by
  obtain ⟨T, hT⟩ : ∃ T, Format.binary64.targetExponent (totalExponent m e) = T := ⟨_, rfl⟩
  obtain ⟨d, hd⟩ : ∃ d, (e - T).toNat = d := ⟨_, rfl⟩
  have htotal : totalExponent (m <<< d) (e - d) = totalExponent m e := by
    rw [totalExponent, totalExponent, log2_shiftLeft hm]
    push_cast
    ring
  simp only [UnpackedFloat.round, decreaseExponent, hT, hd]
  refine roundWithAccuracy_eq s (describes_accuracy _ .exact rfl) h.canonical h.covers ?_ ?_
  · rw [add_zero, ← RoundsTo.value_eq, hw, Nat.shiftLeft_eq, zpow_sub₀ two_ne_zero, zpow_natCast]
    push_cast
    field_simp
  · rw [htotal, hT]
    omega

/-- An exact number from zero upwards is rounded to a double that is not larger than the one of a larger
number. -/
theorem normalize_le {d : ℤ} {w : ℚ} (hd : 0 ≤ d) (he : -1074 ≤ e) (hw : RoundsTo w m k)
    (h : (d * 2 ^ e : ℚ) ≤ w) :
    Float.ofModel (Float.Model.pack (UnpackedFloat.normalize .binary64 d e .positive)) ≤
      ofParts .positive m k hw.canonical.pos := by
  rcases hd.eq_or_lt with rfl | hpos
  · exact (ofParts_unsigned hw.canonical).nonneg
  · obtain ⟨n, rfl⟩ := Int.eq_ofNat_of_zero_le hd
    have hn : 0 < n := by omega
    have hone : (1 : ℚ) ≤ n := by exact_mod_cast hn
    have hleast : (2 : ℚ) ^ (-1074 : ℤ) ≤ n * 2 ^ e :=
      (zpow_le_zpow_right₀ one_le_two he).trans (le_mul_of_one_le_left (by positivity) hone)
    obtain ⟨M, E, hM⟩ := RoundsTo.exists_of_le hleast
    rw [UnpackedFloat.normalize, compare_gt_iff_gt.mpr hpos]
    simp only [Int.toNat_natCast]
    rw [round_eq .positive hn hM rfl]
    exact ofParts_le hM.canonical hw.canonical (hM.le hw (by exact_mod_cast h))

theorem unsigned_normalize {d : ℤ} (hd : 0 ≤ d) (e : ℤ) :
    Unsigned (UnpackedFloat.normalize .binary64 d e .positive) := by
  rcases hd.eq_or_lt with rfl | hpos
  · trivial
  · rw [UnpackedFloat.normalize, compare_gt_iff_gt.mpr hpos]
    exact unsigned_round _ _ _

/-- A number without a minus sign that is at most one is zero or finite. -/
theorem unpack_of_le_one (hx : IsUnsigned x) (h : x ≤ 1) :
    x.toModel.unpack = .zero .positive ∨ ∃ m e, ∃ hm : Canonical m e,
      (e < -52 ∨ e = -52 ∧ m ≤ 2 ^ 52) ∧ x.toModel.unpack = .finite .positive m e hm.pos := by
  obtain ⟨-, -, hposition⟩ := le_iff.mp h
  have hdouble := isDouble_unpack x.toModel
  rw [position_eq, position_eq, unpack_one] at hposition
  unfold IsUnsigned at hx
  generalize x.toModel.unpack = u at hx hposition hdouble ⊢
  rcases u with (_ | _) | _ | (_ | _) | ⟨_ | _, m, e, hm⟩ <;> try cases hx
  · simp [unpackedPosition?, Prod.Lex.toLex_le_toLex] at hposition
  · exact .inl rfl
  · refine .inr ⟨m, e, hdouble.1, ?_, rfl⟩
    simpa [unpackedPosition?, Prod.Lex.toLex_le_toLex] using hposition

/-- What is left of one when a finite number of at most one is taken away, before it is rounded. -/
theorem one_sub_finite (h : Canonical m e) (horder : e < -52 ∨ e = -52 ∧ m ≤ 2 ^ 52) :
    ∃ d : ℤ, 0 ≤ d ∧ (d * 2 ^ e : ℚ) = 1 - m * 2 ^ e ∧
      UnpackedFloat.sub .binary64 (.finite .positive (2 ^ 52) (-52) (by positivity))
        (.finite .positive m e h.pos) = UnpackedFloat.normalize .binary64 d e .positive := by
  have hvalue := value_le h roundsTo_one.canonical horder
  have hwhole : ((2 ^ 52 : ℕ) : ℚ) * 2 ^ (-52 : ℤ) = 1 := by norm_num
  -- both numbers are written with the smaller exponent, which is that of the second one
  have hmin : min (-52) e = e := by omega
  obtain ⟨a, ha⟩ : ∃ a, (-52 - e).toNat = a := ⟨_, rfl⟩
  have hshift : ((2 ^ 52 * 2 ^ a : ℕ) : ℚ) * 2 ^ e = 1 := by
    rw [← hwhole, show (-52 : ℤ) = a + e by omega, zpow_add₀ two_ne_zero, zpow_natCast]
    push_cast
    ring
  rw [hwhole, ← hshift, mul_le_mul_iff_left₀ (by positivity)] at hvalue
  have hvalue : m ≤ 2 ^ 52 * 2 ^ a := by exact_mod_cast hvalue
  refine ⟨(2 ^ 52 * 2 ^ a : ℕ) - m, by omega, ?_, ?_⟩
  · rw [Int.cast_sub, Int.cast_natCast, Int.cast_natCast, sub_mul, hshift]
  · simp only [UnpackedFloat.sub, decreaseExponent, Sign.apply, hmin, ha, sub_self, Int.toNat_zero,
      Nat.shiftLeft_eq, pow_zero, mul_one]

theorem one_sub_eq (x : Float) : 1 - x = Float.ofModel (Float.Model.pack (UnpackedFloat.sub .binary64
    (.finite .positive (2 ^ 52) (-52) (by positivity)) x.toModel.unpack)) := by
  change Float.ofModel (Float.Model.pack (UnpackedFloat.sub .binary64 (1 : Float).toModel.unpack
    x.toModel.unpack)) = _
  rw [unpack_one]

/-- What is left of one is at most one, and it has no minus sign. -/
theorem one_sub_bounds (hx : IsUnsigned x) (h : x ≤ 1) : IsUnsigned (1 - x) ∧ 1 - x ≤ 1 := by
  rw [one_sub_eq]
  rcases unpack_of_le_one hx h with hu | ⟨m, e, hm, horder, hu⟩
  · rw [hu]
    change IsUnsigned 1 ∧ (1 : Float) ≤ 1
    exact ⟨isUnsigned_of_pos (by decide), by decide⟩
  · obtain ⟨d, hd, hvalue, hsub⟩ := one_sub_finite hm horder
    rw [hu, hsub]
    refine ⟨unsigned_pack (unsigned_normalize hd e), ?_⟩
    rw [one_eq]
    refine normalize_le hd hm.least roundsTo_one ?_
    rw [hvalue]
    have hpositive : (0 : ℚ) ≤ m * 2 ^ e := by positivity
    linarith

/-- What is left of one is at most one, unless it is no number. -/
theorem one_sub_le_one (h : x.isNaN = true ∨ IsUnsigned x ∧ x ≤ 1) :
    (1 - x).isNaN = true ∨ 1 - x ≤ 1 := by
  rcases h with hnan | ⟨hunsigned, hle⟩
  · refine .inl ?_
    have hunpack : x.toModel.unpack.isNaN = true := hnan
    change (Float.Model.pack (UnpackedFloat.sub .binary64 (1 : Float).toModel.unpack
      x.toModel.unpack)).unpack.isNaN = true
    generalize x.toModel.unpack = u at hunpack ⊢
    cases u with
    | notANumber => rfl
    | infinity | zero | finite => cases hunpack
  · exact .inr (one_sub_bounds hunsigned hle).2

end LinkDiscovery.Double
