import LinkDiscovery.Score
import Mathlib
/-!
The order of doubles that are numbers. Each of them has a position among triples that are compared
place by place: its side of zero, its power of two and its significand. Comparisons of doubles are
comparisons of positions, so that the numbers are totally preordered; the two zeros share a
position.
-/

namespace LinkDiscovery.Score

open Float.Model

/-- The position of an unpacked double; what is no number has none. -/
def unpackedPosition? : UnpackedFloat → Option (ℤ ×ₗ ℤ ×ₗ ℤ)
  | .notANumber => none
  | .infinity .negative => some (toLex (-2, toLex (0, 0)))
  | .finite .negative m e _ => some (toLex (-1, toLex (-e, -m)))
  | .zero _ => some (toLex (0, toLex (0, 0)))
  | .finite .positive m e _ => some (toLex (1, toLex (e, m)))
  | .infinity .positive => some (toLex (2, toLex (0, 0)))

theorem compare_then_compare (e e' : ℤ) (m m' : ℕ) :
    (Ord.compare e e').then (Ord.compare m m') =
      if e < e' ∨ e = e' ∧ m < m' then .lt else if e' < e ∨ e' = e ∧ m' < m then .gt else .eq := by
  rcases lt_trichotomy e e' with he | rfl | he
  · simp [compare_lt_iff_lt.mpr he, he]
  · rcases lt_trichotomy m m' with hm | rfl | hm
    · simp [compare_lt_iff_lt.mpr hm, hm]
    · simp
    · simp [compare_gt_iff_gt.mpr hm, hm, hm.not_gt]
  · simp [compare_gt_iff_gt.mpr he, he, he.not_gt, he.ne']

theorem unpacked_compare (a b : UnpackedFloat) :
    a.compare b =
      (unpackedPosition? a).bind fun p => (unpackedPosition? b).map fun q => cmp p q := by
  rcases a with (_ | _) | _ | _ | ⟨_ | _, m, e, _⟩ <;>
    rcases b with (_ | _) | _ | _ | ⟨_ | _, m', e', _⟩ <;>
    simp [UnpackedFloat.compare, unpackedPosition?, cmp, cmpUsing, Prod.Lex.toLex_lt_toLex]
  -- what is left are finite numbers on one side of zero
  case finite.negative.finite.negative =>
    rw [compare_then_compare]
    split_ifs <;> first | rfl | omega
  case finite.positive.finite.positive => rw [compare_then_compare]
  all_goals rfl

theorem unpackedPosition?_eq_none_iff (x : Float) :
    unpackedPosition? x.toModel.unpack = none ↔ x.isNaN = true := by
  change _ ↔ x.toModel.unpack.isNaN = true
  rcases x.toModel.unpack with (_ | _) | _ | _ | ⟨_ | _, m, e, _⟩ <;>
    simp [unpackedPosition?, UnpackedFloat.isNaN]

/-- The position of a double. A double that is no number is put where zero stands. -/
def position (x : Float) : ℤ ×ₗ ℤ ×ₗ ℤ :=
  (unpackedPosition? x.toModel.unpack).getD (toLex (0, toLex (0, 0)))

theorem unpackedPosition?_eq (x : Float) :
    unpackedPosition? x.toModel.unpack = if x.isNaN then none else some (position x) := by
  by_cases hx : x.isNaN = true
  · rw [if_pos hx, (unpackedPosition?_eq_none_iff x).mpr hx]
  · obtain ⟨p, hp⟩ := Option.ne_none_iff_exists'.mp (mt (unpackedPosition?_eq_none_iff x).mp hx)
    rw [if_neg hx, position, hp, Option.getD_some]

theorem model_compare (a b : Float) :
    a.toModel.unpack.compare b.toModel.unpack =
      if a.isNaN || b.isNaN then none else some (cmp (position a) (position b)) := by
  rw [unpacked_compare, unpackedPosition?_eq, unpackedPosition?_eq]
  cases a.isNaN <;> cases b.isNaN <;> rfl

theorem isLE_cmp {α : Type*} [LinearOrder α] (a b : α) : (cmp a b).isLE = true ↔ a ≤ b := by
  rcases lt_trichotomy a b with h | rfl | h
  · simp [(cmp_eq_lt_iff a b).mpr h, h.le]
  · simp
  · simp [(cmp_eq_gt_iff a b).mpr h, h]

/-- Both sides of a comparison that holds are numbers. -/
theorem le_iff {a b : Float} :
    a ≤ b ↔ a.isNaN = false ∧ b.isNaN = false ∧ position a ≤ position b := by
  have hle : a ≤ b ↔ (a.toModel.unpack.compare b.toModel.unpack).any (·.isLE) = true := by
    change decide (a.toModel.le b.toModel = true) = true ↔ _
    rw [decide_eq_true_iff]
    rfl
  rw [hle, model_compare]
  cases a.isNaN <;> cases b.isNaN <;> simp [isLE_cmp]

theorem lt_iff {a b : Float} :
    a < b ↔ a.isNaN = false ∧ b.isNaN = false ∧ position a < position b := by
  have hlt : a < b ↔ (a.toModel.unpack.compare b.toModel.unpack == some .lt) = true := by
    change decide (a.toModel.lt b.toModel = true) = true ↔ _
    rw [decide_eq_true_iff]
    rfl
  rw [hlt, model_compare]
  cases a.isNaN <;> cases b.isNaN <;> simp

section

variable {a b c : Float}

theorem number_of_le_left (h : a ≤ b) : a.isNaN = false := (le_iff.mp h).1

theorem number_of_le_right (h : a ≤ b) : b.isNaN = false := (le_iff.mp h).2.1

theorem number_of_finite (h : a.isFinite = true) : a.isNaN = false := by
  change a.toModel.unpack.isFinite = true at h
  change a.toModel.unpack.isNaN = false
  cases hx : a.toModel.unpack <;> simp_all [UnpackedFloat.isFinite, UnpackedFloat.isNaN]

theorem le_self (h : a.isNaN = false) : a ≤ a := le_iff.mpr ⟨h, h, le_rfl⟩

theorem le_trans (hab : a ≤ b) (hbc : b ≤ c) : a ≤ c := by
  obtain ⟨ha, -, hab⟩ := le_iff.mp hab
  obtain ⟨-, hc, hbc⟩ := le_iff.mp hbc
  exact le_iff.mpr ⟨ha, hc, hab.trans hbc⟩

theorem le_of_lt (h : a < b) : a ≤ b := by
  obtain ⟨ha, hb, h⟩ := lt_iff.mp h
  exact le_iff.mpr ⟨ha, hb, h.le⟩

theorem lt_of_le_of_lt (hab : a ≤ b) (hbc : b < c) : a < c := by
  obtain ⟨ha, -, hab⟩ := le_iff.mp hab
  obtain ⟨-, hc, hbc⟩ := lt_iff.mp hbc
  exact lt_iff.mpr ⟨ha, hc, hab.trans_lt hbc⟩

theorem not_lt (ha : a.isNaN = false) (hb : b.isNaN = false) : ¬ a < b ↔ b ≤ a := by
  simp only [le_iff, lt_iff, ha, hb, true_and]
  exact ⟨le_of_not_gt, not_lt_of_ge⟩

theorem not_le (ha : a.isNaN = false) (hb : b.isNaN = false) : ¬ a ≤ b ↔ b < a := by
  simp only [le_iff, lt_iff, ha, hb, true_and]
  exact ⟨lt_of_not_ge, not_le_of_gt⟩

theorem not_le_of_lt (h : a < b) : ¬ b ≤ a := by
  obtain ⟨ha, hb, -⟩ := lt_iff.mp h
  exact (not_le hb ha).mpr h

/-! Smaller and larger numbers. -/

theorem le_smaller_iff (ha : a.isNaN = false) (hb : b.isNaN = false) :
    c ≤ smaller a b ↔ c ≤ a ∧ c ≤ b := by
  by_cases h : b < a
  · simp only [smaller, h, decide_true, Bool.true_or, if_true]
    exact ⟨fun hc => ⟨le_trans hc (le_of_lt h), hc⟩, fun hc => hc.2⟩
  · simp only [smaller, h, decide_false, ha, Bool.or_self, Bool.false_eq_true, if_false]
    exact ⟨fun hc => ⟨hc, le_trans hc ((not_lt hb ha).mp h)⟩, fun hc => hc.1⟩

theorem larger_le_iff (ha : a.isNaN = false) (hb : b.isNaN = false) :
    larger a b ≤ c ↔ a ≤ c ∧ b ≤ c := by
  by_cases h : a < b
  · simp only [larger, h, decide_true, Bool.true_or, if_true]
    exact ⟨fun hc => ⟨le_trans (le_of_lt h) hc, hc⟩, fun hc => hc.2⟩
  · simp only [larger, h, decide_false, ha, Bool.or_self, Bool.false_eq_true, if_false]
    exact ⟨fun hc => ⟨hc, le_trans ((not_lt ha hb).mp h) hc⟩, fun hc => hc.1⟩

theorem le_larger_iff (ha : a.isNaN = false) (hb : b.isNaN = false) :
    c ≤ larger a b ↔ c ≤ a ∨ c ≤ b := by
  by_cases h : a < b
  · simp only [larger, h, decide_true, Bool.true_or, if_true]
    exact ⟨Or.inr, fun hc => hc.elim (le_trans · (le_of_lt h)) id⟩
  · simp only [larger, h, decide_false, ha, Bool.or_self, Bool.false_eq_true, if_false]
    exact ⟨Or.inl, fun hc => hc.elim id (le_trans · ((not_lt ha hb).mp h))⟩

theorem larger_eq_left (ha : a.isNaN = false) (h : b ≤ a) : larger a b = a := by
  have hlt := (not_lt ha (number_of_le_left h)).mpr h
  simp only [larger, hlt, ha, decide_false, Bool.or_self, Bool.false_eq_true, if_false]

theorem larger_eq_right (h : a < b) : larger a b = b := by
  simp [larger, h]

/-- The larger one of the greatest numbers of two sets is the greatest number of both. -/
theorem isGreatest_larger {S T : Set Float} (ha : IsGreatest S a) (hb : IsGreatest T b) :
    IsGreatest (S ∪ T) (larger a b) := by
  -- a number that bounds a set and belongs to it reaches itself
  have hbound (c : Float) : c ≤ larger a b ↔ c ≤ a ∨ c ≤ b :=
    le_larger_iff (number_of_le_left (ha.2 ha.1)) (number_of_le_left (hb.2 hb.1))
  constructor
  · rw [larger]
    split
    · exact .inr hb.1
    · exact .inl ha.1
  · rintro c (hc | hc)
    · exact (hbound c).mpr (.inl (ha.2 hc))
    · exact (hbound c).mpr (.inr (hb.2 hc))

/-- The smaller one of the least numbers of two sets is the least number of both. -/
theorem isLeast_smaller {S T : Set Float} (ha : IsLeast S a) (hb : IsLeast T b) :
    IsLeast (S ∪ T) (smaller a b) := by
  have hna := number_of_le_left (ha.2 ha.1)
  have hnb := number_of_le_left (hb.2 hb.1)
  have hmem : smaller a b ∈ S ∪ T := by
    rw [smaller]
    split
    · exact .inr hb.1
    · exact .inl ha.1
  have hself : smaller a b ≤ smaller a b := by
    rw [smaller]
    split
    · exact le_self hnb
    · exact le_self hna
  obtain ⟨hleft, hright⟩ := (le_smaller_iff hna hnb).mp hself
  refine ⟨hmem, ?_⟩
  rintro c (hc | hc)
  · exact le_trans hleft (ha.2 hc)
  · exact le_trans hright (hb.2 hc)

end

end LinkDiscovery.Score
