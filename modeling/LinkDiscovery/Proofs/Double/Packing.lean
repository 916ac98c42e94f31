import LinkDiscovery.Decimal.Binary
import Mathlib
/-!
The 64 bits of a double and the parts they hold. Packing the parts of a double gives the double
back, and the exact value that a double is written by is read off the same parts.
-/

namespace LinkDiscovery.Double

open Float.Model Float.Model.UnpackedFloat

/-- The exponent of a number in its normal form: the significand has 53 binary digits, or fewer if
the exponent is the least one. -/
structure Canonical (m : ℕ) (e : ℤ) : Prop where
  pos : 0 < m
  lt : m < 2 ^ 53
  normal : 2 ^ 52 ≤ m ∨ e = -1074
  least : -1074 ≤ e

/-- An unpacked double in the form that unpacking gives it. -/
def IsDouble : UnpackedFloat → Prop
  | .finite _ m e _ => Canonical m e ∧ e ≤ 971
  | _ => True

section

variable (s : Sign) {e : BitVec 11} {m : BitVec 52}

theorem unpack_infinity :
    UnpackedFloat.unpack .binary64 (packComponents .binary64 s (-1#11) 0#52) = .infinity s := by
  simp [UnpackedFloat.unpack]

theorem unpack_zero :
    UnpackedFloat.unpack .binary64 (packComponents .binary64 s 0#11 0#52) = .zero s :=
  unpack_packedZero

theorem unpack_subnormal (hm : 0 < m.toNat) :
    UnpackedFloat.unpack .binary64 (packComponents .binary64 s 0#11 m) =
      .finite s m.toNat (-1074) hm := by
  have hne : m ≠ 0#52 := by
    rintro rfl
    exact absurd hm (by decide)
  simp [UnpackedFloat.unpack, hne, Format.exponentBias]

theorem unpack_normal (hzero : e ≠ 0#11) (hones : e ≠ -1#11) :
    UnpackedFloat.unpack .binary64 (packComponents .binary64 s e m) =
      .finite s (2 ^ 52 + m.toNat) (e.toNat - 1075) (by omega) := by
  have hones' : e ≠ 2047#11 := hones
  have happend : (1#1 ++ m).toNat = 2 ^ 52 + m.toNat := by
    rw [BitVec.toNat_append, ← Nat.shiftLeft_add_eq_or_of_lt m.isLt]
    rfl
  simp [UnpackedFloat.unpack, hzero, hones', Format.exponentBias, happend]

theorem ofNat_ne_ones {n : ℕ} (h : ¬ 2 ^ 11 ≤ n + 1) : BitVec.ofNat 11 n ≠ -1#11 := by
  intro hones
  have hvalue := congrArg BitVec.toNat hones
  have hlast : (-1#11).toNat = 2047 := rfl
  rw [BitVec.toNat_ofNat, hlast] at hvalue
  omega

theorem log2_eq {n k : ℕ} (hlow : 2 ^ k ≤ n) (hhigh : n < 2 ^ (k + 1)) : n.log2 = k :=
  (Nat.log2_eq_iff (by have := Nat.two_pow_pos k; omega)).mpr ⟨hlow, hhigh⟩

theorem pack_normal {n : ℕ} {k : ℤ} (h : 0 < n) (hlow : 2 ^ 52 ≤ n) (hhigh : n < 2 ^ 53)
    (hk : -1074 ≤ k) (hk' : k ≤ 971) :
    UnpackedFloat.pack .binary64 (.finite s n k h) =
      packComponents .binary64 s (BitVec.ofNat 11 (k + 1075).toNat) (BitVec.ofNat 52 n) := by
  have hlog : n.log2 = 52 := log2_eq hlow hhigh
  have hbias : (k + 1023 + 52).toNat = (k + 1075).toNat := by omega
  have hsmall : ¬ 2048 ≤ (k + 1075).toNat + 1 := by omega
  simp [UnpackedFloat.pack, Format.exponentBias, Format.mantissaBits, hlog, hbias, hsmall]

theorem pack_subnormal {n : ℕ} (h : 0 < n) (hhigh : n < 2 ^ 52) :
    UnpackedFloat.pack .binary64 (.finite s n (-1074) h) =
      packComponents .binary64 s 0#11 (BitVec.ofNat 52 n) := by
  have hlog : n.log2 + 1 ≠ 53 := by
    have := (Nat.log2_lt h.ne').mpr hhigh
    omega
  simp [UnpackedFloat.pack, Format.exponentBias, Format.mantissaBits, hlog]

end

/-- The parts of a double: of the patterns for what is no number only one occurs. -/
inductive Parts : BitVec 64 → Prop where
  | infinity (s : Sign) : Parts (packComponents .binary64 s (-1#11) 0#52)
  | notANumber : Parts (packedNaN .binary64)
  | zero (s : Sign) : Parts (packComponents .binary64 s 0#11 0#52)
  | subnormal (s : Sign) (m : BitVec 52) (hm : 0 < m.toNat) :
      Parts (packComponents .binary64 s 0#11 m)
  | normal (s : Sign) (e : BitVec 11) (m : BitVec 52) (hzero : e ≠ 0#11) (hones : e ≠ -1#11) :
      Parts (packComponents .binary64 s e m)

theorem parts (x : Float.Model) : Parts x.toBits.toBitVec := by
  obtain ⟨bits, valid⟩ := x
  change Parts bits.toBitVec
  generalize bits.toBitVec = b at valid
  have hb := @packComponents_unpackSign_unpackExponent_unpackMantissa .binary64 b
  have hnan := valid.eq_packedNaN
  generalize Sign.ofBitVec (@unpackSign .binary64 b) = s at hb
  generalize @unpackExponent .binary64 b = e at hb hnan
  generalize @unpackMantissa .binary64 b = m at hb hnan
  subst hb
  by_cases hones : e = -1#11
  · subst hones
    by_cases hm : m = 0#52
    · exact hm ▸ .infinity s
    · exact hnan rfl hm ▸ .notANumber
  · by_cases hzero : e = 0#11
    · subst hzero
      by_cases hm : m = 0#52
      · exact hm ▸ .zero s
      · refine .subnormal s m ?_
        rw [BitVec.toNat_pos, BitVec.pos_iff_ne_zero]
        exact hm
    · exact .normal s e m hzero hones

theorem exponent_range {e : BitVec 11} (hzero : e ≠ 0#11) (hones : e ≠ -1#11) :
    0 < e.toNat ∧ e.toNat < 2047 := by
  have hlt : e.toNat < 2048 := e.isLt
  have hzero' : e.toNat ≠ 0 := fun h => hzero (BitVec.eq_of_toNat_eq h)
  have hones' : e.toNat ≠ 2047 := fun h => hones (BitVec.eq_of_toNat_eq h)
  omega

/-- The bits of a double are those that its parts are packed into. -/
theorem pack_unpack (x : Float.Model) : Float.Model.pack x.unpack = x := by
  have h : UnpackedFloat.pack .binary64 (UnpackedFloat.unpack .binary64 x.toBits.toBitVec) =
      x.toBits.toBitVec := pack_unpack_of_valid x.valid
  obtain ⟨bits, valid⟩ := x
  simp [Float.Model.pack, Float.Model.unpack, h]

theorem isDouble_unpack (x : Float.Model) : IsDouble x.unpack := by
  change IsDouble (UnpackedFloat.unpack .binary64 x.toBits.toBitVec)
  have hparts := parts x
  generalize x.toBits.toBitVec = b at hparts
  cases hparts with
  | infinity s => rw [unpack_infinity]; trivial
  | notANumber => trivial
  | zero s => rw [unpack_zero]; trivial
  | subnormal s m hm =>
      rw [unpack_subnormal s hm]
      have hlt : m.toNat < 2 ^ 52 := m.isLt
      exact ⟨⟨hm, by omega, .inr rfl, le_rfl⟩, by omega⟩
  | normal s e m hzero hones =>
      obtain ⟨hpos, hlt⟩ := exponent_range hzero hones
      have hm : m.toNat < 2 ^ 52 := m.isLt
      rw [unpack_normal s hzero hones]
      exact ⟨⟨by omega, by omega, .inl (by omega), by omega⟩, by omega⟩

theorem unpack_pack {u : UnpackedFloat} (h : IsDouble u) : (Float.Model.pack u).unpack = u := by
  change UnpackedFloat.unpack .binary64 (UnpackedFloat.pack .binary64 u) = u
  cases u with
  | infinity s => exact unpack_infinity s
  | notANumber => rfl
  | zero s => exact unpack_zero s
  | finite s n k hn =>
      obtain ⟨⟨-, hlt, hnormal, hleast⟩, hk⟩ := h
      by_cases hlow : 2 ^ 52 ≤ n
      · have he : (BitVec.ofNat 11 (k + 1075).toNat).toNat = (k + 1075).toNat := by
          simp only [BitVec.toNat_ofNat]
          omega
        have hm : (BitVec.ofNat 52 n).toNat = n - 2 ^ 52 := by
          simp only [BitVec.toNat_ofNat]
          omega
        rw [pack_normal s hn hlow hlt hleast hk, unpack_normal]
        · have hn' : 2 ^ 52 + (n - 2 ^ 52) = n := by omega
          have hk' : (((k + 1075).toNat : ℕ) : ℤ) - 1075 = k := by omega
          simp only [he, hm, hn', hk']
        · intro hzero
          rw [hzero] at he
          simp at he
          omega
        · intro hones
          rw [hones] at he
          simp at he
          omega
      · obtain rfl := hnormal.resolve_left hlow
        have hn' : (BitVec.ofNat 52 n).toNat = n := by
          simp only [BitVec.toNat_ofNat]
          omega
        rw [pack_subnormal s hn (not_le.mp hlow), unpack_subnormal s (by rwa [hn'])]
        simp only [hn']

theorem toNat_packComponents (s : Sign) (e : BitVec 11) (m : BitVec 52) :
    (packComponents .binary64 s e m).toNat =
      s.toBitVec.toNat * 2 ^ 63 + e.toNat * 2 ^ 52 + m.toNat := by
  rw [packComponents, BitVec.toNat_append, ← Nat.shiftLeft_add_eq_or_of_lt m.isLt,
    BitVec.toNat_append, ← Nat.shiftLeft_add_eq_or_of_lt e.isLt, Nat.shiftLeft_eq,
    Nat.shiftLeft_eq]
  ring

/-- The exact value of an unpacked double. -/
def exactValue : UnpackedFloat → Decimal.Binary
  | .notANumber => .notANumber
  | .infinity s => .infinite (s == .negative)
  | .zero s => .finite (s == .negative) 0 (-1074)
  | .finite s m e _ => .finite (s == .negative) m e

theorem fields (s : Sign) (e : BitVec 11) (m : BitVec 52) :
    (packComponents .binary64 s e m).toNat / Decimal.Binary.binadeStart % 2048 = e.toNat ∧
      (packComponents .binary64 s e m).toNat % Decimal.Binary.binadeStart = m.toNat ∧
        decide (0x8000000000000000 ≤ (packComponents .binary64 s e m).toNat) =
          (s == .negative) := by
  have hm : m.toNat < 2 ^ 52 := m.isLt
  have he : e.toNat < 2 ^ 11 := e.isLt
  rw [toNat_packComponents]
  simp only [Decimal.Binary.binadeStart]
  cases s with
  | negative =>
      have hs : Sign.negative.toBitVec.toNat = 1 := rfl
      rw [hs]
      refine ⟨by omega, by omega, ?_⟩
      exact decide_eq_true (by omega)
  | positive =>
      have hs : Sign.positive.toBitVec.toNat = 0 := rfl
      rw [hs]
      refine ⟨by omega, by omega, ?_⟩
      exact decide_eq_false (by omega)

/-- The exact value read off the bits of a double is that of its parts. -/
theorem ofFloat_eq (x : Float) : Decimal.Binary.ofFloat x = exactValue x.toModel.unpack := by
  change Decimal.Binary.ofFloat x =
    exactValue (UnpackedFloat.unpack .binary64 x.toModel.toBits.toBitVec)
  have hbits : x.toBits.toNat = x.toModel.toBits.toBitVec.toNat := rfl
  unfold Decimal.Binary.ofFloat
  rw [hbits]
  have hparts := parts x.toModel
  generalize x.toModel.toBits.toBitVec = b at hparts
  cases hparts with
  | infinity s =>
      rw [unpack_infinity]
      cases s <;> rfl
  | notANumber => rfl
  | zero s =>
      rw [unpack_zero]
      cases s <;> rfl
  | subnormal s m hm =>
      obtain ⟨he, hm', hs⟩ := fields s 0#11 m
      simp only [unpack_subnormal s hm, exactValue, he, hm', hs]
      rfl
  | normal s e m hzero hones =>
      obtain ⟨he, hm', hs⟩ := fields s e m
      obtain ⟨hpos, hlt⟩ := exponent_range hzero hones
      simp only [unpack_normal s hzero hones, exactValue, he, hm', hs, hpos.ne', hlt.ne, if_false]
      rfl

end LinkDiscovery.Double
