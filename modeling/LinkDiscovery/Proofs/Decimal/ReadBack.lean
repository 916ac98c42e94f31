import LinkDiscovery.Decimal.Text
import LinkDiscovery.Proofs.Decimal.Shortest
import LinkDiscovery.Proofs.Double.Arithmetic
import LinkDiscovery.Proofs.Grammar.Spelling
/-!
A finite double that is printed is read back as itself.
-/

namespace LinkDiscovery.Decimal

open Double Text Text.Scanner Grammar Float.Model Float.Model.UnpackedFloat

/-- A row of digits. -/
def AreDigits (ds : List Char) : Prop :=
  ∀ c ∈ ds, c.isDigit = true

theorem digitsValue_eq (ds : List Char) : digitsValue ds = Nat.ofDigitChars 10 ds 0 := rfl

theorem areDigits_digits (n : ℕ) : AreDigits (digits n) :=
  fun _ hc => Nat.isDigit_of_mem_toDigits (by norm_num) (by norm_num) hc

theorem areDigits_zeros (n : ℕ) : AreDigits (zeros n) := by
  intro c hc
  rw [List.eq_of_mem_replicate hc]
  rfl

theorem digitsValue_digits (n : ℕ) : digitsValue (digits n) = n :=
  Nat.ofDigitChars_ten_toDigits

theorem digitsValue_append_zeros (ds : List Char) (n : ℕ) :
    digitsValue (ds ++ zeros n) = digitsValue ds * 10 ^ n := by
  rw [digitsValue_eq, Nat.ofDigitChars_append, zeros, Nat.ofDigitChars_replicate_zero, mul_comm]
  rfl

theorem digitsValue_zeros_append (ds : List Char) (n : ℕ) :
    digitsValue (zeros n ++ ds) = digitsValue ds := by
  rw [digitsValue_eq, Nat.ofDigitChars_append, zeros, Nat.ofDigitChars_replicate_zero, mul_zero]
  rfl

/-! Reading numerals. -/

variable {rest : List Char}

theorem isDigit_not_sign {c : Char} (h : c.isDigit = true) : c ≠ '-' ∧ c ≠ '+' := by
  constructor <;> rintro rfl <;> cases h

theorem withSign_append (negative : Bool) (text rest : List Char) :
    withSign negative text ++ rest = withSign negative (text ++ rest) := by
  cases negative <;> rfl

theorem sign_found {c : Char} (hc : c.isDigit = true) (negative : Bool) (text : List Char) :
    sign (withSign negative (c :: text)) = .found negative (c :: text) := by
  obtain ⟨hminus, hplus⟩ := isDigit_not_sign hc
  cases negative with
  | true => rfl
  | false => exact sign_absent hminus hplus

theorem word_digits {ds : List Char} (hds : AreDigits ds) (hne : ds ≠ []) {c : Char}
    (hc : c.isDigit = false) :
    word Char.isDigit (ds ++ c :: rest) = .found ds (c :: rest) := by
  rw [word_eq_found, List.takeWhile_append_of_pos hds, List.dropWhile_append_of_pos hds]
  simp [hc, hne]

theorem power_missing (hrest : StartsClosing rest) : power rest = .found none rest := by
  obtain ⟨c, tail, rfl, hc⟩ := hrest
  rcases isClosing_cases hc with rfl | rfl | rfl | rfl | rfl | rfl | rfl | rfl | rfl <;> rfl

/-- The text goes on with something that digits with a point cannot go on with. -/
def StopsDigits (rest : List Char) : Prop :=
  ∃ c tail, rest = c :: tail ∧ c.isDigit = false ∧ c ≠ '.'

theorem stopsDigits_of_closing (h : StartsClosing rest) : StopsDigits rest := by
  obtain ⟨c, tail, rfl, hc⟩ := h
  refine ⟨c, tail, rfl, isClosing_not_digit hc, ?_⟩
  rintro rfl
  cases hc

theorem pointed_whole {ds : List Char} (hds : AreDigits ds) (hne : ds ≠ [])
    (hrest : StopsDigits rest) : pointed (ds ++ rest) = .found (ds, []) rest := by
  obtain ⟨c, tail, rfl, hc, hdot⟩ := hrest
  have hpoint : token '.' (c :: tail) = .missing := by simp [token, hdot]
  refine orElse_found ((bind_found (word_digits hds hne hc)).trans ?_)
  exact bind_found (optional_eq_found.mpr (.inr ⟨rfl, rfl, bind_missing hpoint⟩))

theorem pointed_fraction {ds fraction : List Char} (hds : AreDigits ds) (hne : ds ≠ [])
    (hfraction : AreDigits fraction) (hrest : StopsDigits rest) :
    pointed (ds ++ '.' :: (fraction ++ rest)) = .found (ds, fraction) rest := by
  obtain ⟨c, tail, rfl, hc, -⟩ := hrest
  have hspan : span Char.isDigit (fraction ++ c :: tail) = .found fraction (c :: tail) := by
    rw [span_eq_found, List.takeWhile_append_of_pos hfraction,
      List.dropWhile_append_of_pos hfraction]
    simp [hc]
  refine orElse_found ((bind_found (word_digits hds hne rfl)).trans ?_)
  refine bind_found (optional_eq_found.mpr (.inl ⟨fraction, rfl, ?_⟩))
  exact (bind_found (token_cons '.')).trans hspan

/-- What is read as digits with a point is read as a numeral. -/
theorem number_pointed {c : Char} {text whole fraction : List Char} (hc : c.isDigit = true)
    (hpointed : pointed (c :: text ++ rest) = .found (whole, fraction) rest)
    (hrest : StartsClosing rest) (negative : Bool) :
    number (withSign negative (c :: text) ++ rest) =
      .found (Numeral.toFloat { negative, whole, fraction, exponent := none }) rest := by
  rw [withSign_append]
  have hnumeral : numeral (withSign negative (c :: text ++ rest)) =
      .found { negative, whole, fraction, exponent := none } rest := by
    refine (bind_found (sign_found hc negative _)).trans ?_
    refine (bind_found hpointed).trans ?_
    exact bind_found (power_missing hrest)
  exact orElse_found (bind_found hnumeral)

/-! The double of a numeral. -/

theorem neg_ofParts {m : ℕ} {e : ℤ} (h : Canonical m e) (he : e ≤ 971) :
    -ofParts .positive m e h.pos = ofParts .negative m e h.pos := by
  change Float.ofModel (Float.Model.pack
    (UnpackedFloat.neg (ofParts .positive m e h.pos).toModel.unpack)) = _
  rw [unpack_ofParts _ h he]
  rfl

theorem lt_ten_pow (n : ℕ) : n < 10 ^ (n.log2 / 3 + 1) :=
  calc
    n < 2 ^ (n.log2 + 1) := Nat.lt_log2_self
    _ ≤ 2 ^ (3 * (n.log2 / 3 + 1)) := Nat.pow_le_pow_right two_pos (by omega)
    _ = 8 ^ (n.log2 / 3 + 1) := by rw [pow_mul]; norm_num
    _ ≤ 10 ^ (n.log2 / 3 + 1) := Nat.pow_le_pow_left (by norm_num) _

/-- A decimal in the interval of a double is not so small that its power of ten is not formed. -/
theorem scale_bound {m : ℕ} {e : ℤ} {y : ℚ} (h : Canonical m e) (hy : Covers m e y) {n : ℕ}
    {scale : ℤ} (hv : (n : ℚ) * 10 ^ scale = y * 2 ^ e) :
    -400 ≤ scale + (n.log2 / 3 + 1 : ℕ) := by
  by_contra hsmall
  have hten : (0 : ℚ) < 10 ^ scale := by positivity
  have hupper : (n : ℚ) * 10 ^ scale < 2 ^ (-1075 : ℤ) :=
    calc
      (n : ℚ) * 10 ^ scale < 10 ^ (n.log2 / 3 + 1) * 10 ^ scale :=
        mul_lt_mul_of_pos_right (by exact_mod_cast lt_ten_pow n) hten
      _ = 10 ^ (scale + (n.log2 / 3 + 1 : ℕ)) := by
        rw [zpow_add₀ (by norm_num), zpow_natCast, mul_comm]
      _ ≤ 2 ^ (-1075 : ℤ) := ten_zpow_le _ _ (by omega)
  have hlower : (2 : ℚ) ^ (-1075 : ℤ) ≤ y * 2 ^ e := by
    have hm : (1 : ℚ) ≤ m := by exact_mod_cast h.pos
    have hhalf : (2 : ℚ)⁻¹ ≤ y := by linarith [hy.low]
    calc
      (2 : ℚ) ^ (-1075 : ℤ) ≤ 2 ^ (-1 + e) := zpow_le_zpow_right₀ one_le_two (by linarith [h.least])
      _ = 2⁻¹ * 2 ^ e := by rw [zpow_add₀ two_ne_zero, zpow_neg_one]
      _ ≤ y * 2 ^ e := mul_le_mul_of_nonneg_right hhalf (by positivity)
  rw [hv] at hupper
  linarith

theorem nearest_eq {m : ℕ} {e : ℤ} {y : ℚ} (h : Canonical m e) (hy : Covers m e y) {n : ℕ}
    (hn : 0 < n) {scale : ℤ} (hscale : scale ≤ 0) (hv : (n : ℚ) * 10 ^ scale = y * 2 ^ e) :
    nearest n scale = ofParts .positive m e h.pos := by
  have hbound := scale_bound h hy hv
  unfold nearest
  rw [if_neg hn.ne', if_neg (by omega), if_neg (by omega)]
  cases scale with
  | ofNat k =>
      obtain rfl : k = 0 := by simpa using hscale
      exact ofScientific_eq h hy false hn (by simpa using hv) (by simp) (by simp)
  | negSucc k =>
      refine ofScientific_eq h hy true hn ?_ (by simp) (by omega)
      rw [← hv]
      simp [Int.negSucc_eq]

/-! Printed doubles. -/

theorem positional_found {ds : List Char} (hds : AreDigits ds) (hne : ds ≠ []) (ten : ℤ)
    (hrest : StartsClosing rest) :
    ∃ c text whole fraction, positional ds ten = c :: text ∧ c.isDigit = true ∧
      pointed (c :: text ++ rest) = .found (whole, fraction) rest ∧
        (digitsValue (whole ++ fraction) : ℚ) * 10 ^ (-(fraction.length : ℤ)) =
          digitsValue ds * 10 ^ ten := by
  cases ten with
  | ofNat n =>
      obtain ⟨c, text, rfl⟩ := List.exists_cons_of_ne_nil hne
      have hall : AreDigits (c :: text ++ zeros n) :=
        List.forall_mem_append.mpr ⟨hds, areDigits_zeros n⟩
      refine ⟨c, text ++ zeros n, c :: text ++ zeros n, [], rfl, hds c List.mem_cons_self,
        pointed_whole hall (by simp) (stopsDigits_of_closing hrest), ?_⟩
      rw [List.append_nil, digitsValue_append_zeros]
      simp
  | negSucc n =>
      -- padded with zeros, the digits have at least one in front of the point
      obtain ⟨padded, hpadded⟩ : ∃ padded, zeros (n + 2 - ds.length) ++ ds = padded := ⟨_, rfl⟩
      have hlength : n + 2 ≤ padded.length := by
        simp only [← hpadded, zeros, List.length_append, List.length_replicate]
        omega
      have hall : AreDigits padded :=
        hpadded ▸ List.forall_mem_append.mpr ⟨areDigits_zeros _, hds⟩
      have hvalue : digitsValue padded = digitsValue ds := by
        rw [← hpadded, digitsValue_zeros_append]
      have hwhole : AreDigits (padded.take (padded.length - (n + 1))) :=
        fun c hc => hall c (List.mem_of_mem_take hc)
      have hfraction : AreDigits (padded.drop (padded.length - (n + 1))) :=
        fun c hc => hall c (List.mem_of_mem_drop hc)
      have hlengths : (padded.drop (padded.length - (n + 1))).length = n + 1 := by
        rw [List.length_drop]
        omega
      have hwhole_ne : padded.take (padded.length - (n + 1)) ≠ [] := by
        apply List.ne_nil_of_length_pos
        rw [List.length_take]
        omega
      have htext : positional ds (.negSucc n) = padded.take (padded.length - (n + 1)) ++
          '.' :: padded.drop (padded.length - (n + 1)) := by
        simp only [positional, withPoint, hpadded]
      have hsplit := List.take_append_drop (padded.length - (n + 1)) padded
      generalize padded.take (padded.length - (n + 1)) = whole at *
      generalize padded.drop (padded.length - (n + 1)) = fraction at *
      obtain ⟨c, text, rfl⟩ := List.exists_cons_of_ne_nil hwhole_ne
      refine ⟨c, text ++ '.' :: fraction, c :: text, fraction, htext,
        hwhole c List.mem_cons_self, ?_, ?_⟩
      · have hpointed := pointed_fraction hwhole hwhole_ne hfraction (stopsDigits_of_closing hrest)
        simpa using hpointed
      · rw [hsplit, hvalue, hlengths, Int.negSucc_eq]
        push_cast
        ring

theorem eq_ofModel_pack {x : Float} {u : UnpackedFloat} (h : x.toModel.unpack = u) :
    x = .ofModel (Float.Model.pack u) := by
  rw [← h, pack_unpack]

theorem toFloat_zero (s : Sign) :
    Numeral.toFloat { negative := s == .negative, whole := ['0'], fraction := [], exponent := none } =
      .ofModel (Float.Model.pack (.zero s)) := by
  cases s <;> rfl

/-- A finite double that is printed is read back as itself. -/
theorem number_plain {x : Float} (hx : x.isFinite = true) (hrest : StartsClosing rest) :
    number ((plain x).toList ++ rest) = .found x rest := by
  have hvalue := ofFloat_eq x
  have hdouble := isDouble_unpack x.toModel
  have hpack := eq_ofModel_pack (x := x) rfl
  change x.toModel.unpack.isFinite = true at hx
  generalize x.toModel.unpack = u at hvalue hdouble hpack hx
  cases u with
  | infinity s => cases hx
  | notANumber => cases hx
  | zero s =>
      have htext : (plain x).toList = withSign (s == .negative) ['0'] := by
        simp [plain, write, hvalue, exactValue]
      have hdigits : AreDigits ['0'] := by simp [AreDigits]
      have hpointed := pointed_whole hdigits (by simp) (stopsDigits_of_closing hrest)
      rw [htext, number_pointed rfl hpointed hrest, toFloat_zero, ← hpack]
  | finite s m e hm =>
      obtain ⟨hcanonical, he⟩ := hdouble
      obtain ⟨d, ten, hshortest, hd, hcovers⟩ := shortest_covers hcanonical he .larger
      have htext : (plain x).toList = withSign (s == .negative) (positional (digits d) ten) := by
        simp [plain, write, hvalue, exactValue, hm.ne', hshortest]
      obtain ⟨c, text, whole, fraction, hpositional, hc, hpointed, hdecimal⟩ :=
        positional_found (areDigits_digits d) Nat.toDigits_ne_nil ten hrest
      rw [digitsValue_digits] at hdecimal
      have hsignificand : 0 < digitsValue (whole ++ fraction) := by
        apply Nat.pos_of_ne_zero
        intro hzero
        have hd' : (0 : ℚ) < d * 10 ^ ten := mul_pos (by exact_mod_cast hd) (by positivity)
        rw [← hdecimal, hzero] at hd'
        simp at hd'
      -- the shortest digits lie in the interval of the double, and so they are nearest to it
      have hmagnitude : nearest (digitsValue (whole ++ fraction)) (0 - fraction.length) =
          ofParts .positive m e hcanonical.pos := by
        refine nearest_eq hcanonical hcovers hsignificand (by omega) ?_
        rw [zero_sub, hdecimal]
        field_simp
      rw [htext, hpositional, number_pointed hc hpointed hrest]
      have hsigned : Numeral.toFloat
          { negative := s == .negative, whole, fraction, exponent := none } = x := by
        simp only [Numeral.toFloat, Numeral.significand, Numeral.scale, Option.getD_none,
          hmagnitude]
        rw [hpack]
        cases s with
        | negative => exact neg_ofParts hcanonical he
        | positive => rfl
      rw [hsigned]

end LinkDiscovery.Decimal

namespace LinkDiscovery.Grammar

/-- A finite double as it is printed. -/
def Figure.ofFloat (x : Float) : Figure where
  text := (Decimal.plain x).toList
  value := x

theorem Figure.ofFloat_legible {x : Float} (hx : x.isFinite = true) : (Figure.ofFloat x).Legible :=
  fun _ hrest => Decimal.number_plain hx hrest

end LinkDiscovery.Grammar
