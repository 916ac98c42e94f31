import LinkDiscovery.Proofs.Decimal.ReadBack
/-!
Numbers that are cut short. Digits and the mark of a power of ten without an integer behind it are no
number, and where they stand nothing else is tried either. Only there does an attempt at a number, or at a
coefficient, stop the alternatives.
-/

namespace LinkDiscovery

namespace Decimal

open Text Text.Scanner Grammar

/-- A sign, or nothing. -/
def IsSign (text : List Char) : Prop :=
  text = [] ∨ text = ['+'] ∨ text = ['-']

/-- Digits with one point or none, at least one digit. -/
def IsPointed (text : List Char) : Prop :=
  ∃ whole fraction, AreDigits whole ∧ AreDigits fraction ∧
    ((text = whole ++ '.' :: fraction ∧ whole ++ fraction ≠ []) ∨ (text = whole ∧ whole ≠ []))

/-- The text begins with digits, with or without a sign. -/
def StartsInteger (text : List Char) : Prop :=
  ∃ sign c rest, IsSign sign ∧ c.isDigit = true ∧ text = sign ++ c :: rest

/-- The text begins with a number that has the mark of a power of ten, and no power of ten. -/
def CutShort (text : List Char) : Prop :=
  ∃ sign digits mark rest, IsSign sign ∧ IsPointed digits ∧ (mark = 'e' ∨ mark = 'E') ∧
    ¬ StartsInteger rest ∧ text = sign ++ (digits ++ mark :: rest)

variable {input left rest : List Char}

/-! Signs. -/

theorem sign_eq_found {negative : Bool} (h : sign input = .found negative left) :
    ∃ s, IsSign s ∧ input = s ++ left := by
  rcases orElse_eq_found.mp h with h | ⟨-, h⟩
  · obtain ⟨_, rest, htoken, hpure⟩ := bind_eq_found.mp h
    obtain ⟨-, rfl⟩ := Scan.found.inj hpure
    exact ⟨['-'], .inr (.inr rfl), token_eq_found.mp htoken⟩
  · rcases orElse_eq_found.mp h with h | ⟨-, h⟩
    · obtain ⟨_, rest, htoken, hpure⟩ := bind_eq_found.mp h
      obtain ⟨-, rfl⟩ := Scan.found.inj hpure
      exact ⟨['+'], .inr (.inl rfl), token_eq_found.mp htoken⟩
    · obtain ⟨-, rfl⟩ := Scan.found.inj h
      exact ⟨[], .inl rfl, rfl⟩

theorem exists_sign {s : List Char} (hs : IsSign s) {c : Char} (hminus : c ≠ '-') (hplus : c ≠ '+')
    (rest : List Char) : ∃ negative, sign (s ++ c :: rest) = .found negative (c :: rest) := by
  rcases hs with rfl | rfl | rfl
  · exact ⟨false, sign_absent hminus hplus⟩
  · exact ⟨false, rfl⟩
  · exact ⟨true, rfl⟩

theorem sign_lenient : Lenient sign :=
  .orElse (.bind (.token '-') fun _ => .pure true)
    (.orElse (.bind (.token '+') fun _ => .pure false) (.pure false))

/-! Digits with a point. -/

theorem word_eq_found_digits {ds : List Char} (h : word Char.isDigit input = .found ds left) :
    input = ds ++ left ∧ ds ≠ [] ∧ AreDigits ds := by
  obtain ⟨hne, hds, hleft⟩ := word_eq_found.mp h
  refine ⟨?_, hne, fun c hc => List.mem_takeWhile_imp (hds ▸ hc)⟩
  rw [← hds, ← hleft, List.takeWhile_append_dropWhile]

theorem pointed_eq_found {parts : List Char × List Char} (h : pointed input = .found parts left) :
    ∃ digits, IsPointed digits ∧ input = digits ++ left := by
  rcases orElse_eq_found.mp h with h | ⟨-, h⟩
  · obtain ⟨whole, rest, hword, h⟩ := bind_eq_found.mp h
    obtain ⟨fraction?, rest', hoptional, hpure⟩ := bind_eq_found.mp h
    obtain ⟨-, rfl⟩ := Scan.found.inj hpure
    obtain ⟨rfl, hne, hwhole⟩ := word_eq_found_digits hword
    rcases optional_eq_found.mp hoptional with ⟨fraction, -, hfraction⟩ | ⟨-, rfl, -⟩
    · obtain ⟨_, rest'', htoken, hspan⟩ := bind_eq_found.mp hfraction
      obtain rfl := token_eq_found.mp htoken
      obtain ⟨hfraction, hrest⟩ := span_eq_found.mp hspan
      refine ⟨whole ++ '.' :: fraction, ⟨whole, fraction, hwhole, ?_, .inl ⟨rfl, by simp [hne]⟩⟩, ?_⟩
      · exact fun c hc => List.mem_takeWhile_imp (hfraction ▸ hc)
      · rw [← hfraction, ← hrest, List.append_assoc, List.cons_append,
          List.takeWhile_append_dropWhile]
    · exact ⟨whole, ⟨whole, [], hwhole, by simp [AreDigits], .inr ⟨rfl, hne⟩⟩, rfl⟩
  · obtain ⟨_, rest, htoken, h⟩ := bind_eq_found.mp h
    obtain ⟨fraction, rest', hword, hpure⟩ := bind_eq_found.mp h
    obtain ⟨-, rfl⟩ := Scan.found.inj hpure
    obtain rfl := token_eq_found.mp htoken
    obtain ⟨rfl, hne, hfraction⟩ := word_eq_found_digits hword
    exact ⟨'.' :: fraction, ⟨[], fraction, by simp [AreDigits], hfraction, .inl ⟨rfl, hne⟩⟩, rfl⟩

theorem exists_pointed {digits : List Char} (h : IsPointed digits) (hrest : StopsDigits rest) :
    ∃ parts, pointed (digits ++ rest) = .found parts rest := by
  obtain ⟨whole, fraction, hwhole, hfraction, ⟨rfl, hne⟩ | ⟨rfl, hne⟩⟩ := h
  · rw [List.append_assoc, List.cons_append]
    by_cases hnil : whole = []
    · subst hnil
      obtain ⟨c, tail, rfl, hc, -⟩ := hrest
      refine ⟨([], fraction), (orElse_missing (bind_missing rfl)).trans ?_⟩
      exact (bind_found (token_cons '.')).trans (bind_found (word_digits hfraction hne hc))
    · exact ⟨_, pointed_fraction hwhole hnil hfraction hrest⟩
  · exact ⟨_, pointed_whole hwhole hne hrest⟩

theorem pointed_lenient : Lenient pointed :=
  .orElse
    (.bind (.word _) fun _ =>
      .bind (.optional (.bind (.token '.') fun _ => .span _)) fun _ => .pure _)
    (.bind (.token '.') fun _ => .bind (.word _) fun _ => .pure _)

theorem IsPointed.startsWith {digits : List Char} (h : IsPointed digits) :
    ∃ c tail, digits = c :: tail ∧ (c.isDigit = true ∨ c = '.') := by
  obtain ⟨whole, fraction, hwhole, -, ⟨rfl, -⟩ | ⟨rfl, hne⟩⟩ := h
  · cases whole with
    | nil => exact ⟨'.', fraction, rfl, .inr rfl⟩
    | cons c whole => exact ⟨c, _, rfl, .inl (hwhole c List.mem_cons_self)⟩
  · obtain ⟨c, tail, rfl⟩ := List.exists_cons_of_ne_nil hne
    exact ⟨c, tail, rfl, .inl (hwhole c List.mem_cons_self)⟩

/-! Powers of ten. -/

/-- An integer behind the mark of a power of ten. -/
def integer : Scanner Int := do
  let negative ← sign
  let digits ← word Char.isDigit
  return if negative then -Int.ofNat (digitsValue digits) else Int.ofNat (digitsValue digits)

theorem integer_lenient : Lenient integer :=
  .bind sign_lenient fun _ => .bind (.word _) fun _ => .pure _

theorem exists_integer_iff : (∃ n left, integer input = .found n left) ↔ StartsInteger input := by
  constructor
  · rintro ⟨n, left, h⟩
    obtain ⟨negative, rest, hsign, h⟩ := bind_eq_found.mp h
    obtain ⟨ds, rest', hword, -⟩ := bind_eq_found.mp h
    obtain ⟨s, hs, rfl⟩ := sign_eq_found hsign
    obtain ⟨rfl, hne, hds⟩ := word_eq_found_digits hword
    obtain ⟨c, ds, rfl⟩ := List.exists_cons_of_ne_nil hne
    exact ⟨s, c, ds ++ rest', hs, hds c List.mem_cons_self, rfl⟩
  · rintro ⟨s, c, rest, hs, hc, rfl⟩
    obtain ⟨hminus, hplus⟩ := isDigit_not_sign hc
    obtain ⟨negative, hsign⟩ := exists_sign hs hminus hplus rest
    have hword : word Char.isDigit (c :: rest) =
        .found (c :: rest.takeWhile Char.isDigit) (rest.dropWhile Char.isDigit) := by
      simp [word, hc]
    exact ⟨_, _, (bind_found hsign).trans (bind_found hword)⟩

theorem integer_eq_missing : integer input = .missing ↔ ¬ StartsInteger input := by
  rw [← exists_integer_iff]
  cases h : integer input with
  | found n left => simp
  | missing => simp
  | broken => exact absurd h (integer_lenient input)

theorem power_eq_broken :
    power input = .broken ↔
      ∃ mark rest, (mark = 'e' ∨ mark = 'E') ∧ ¬ StartsInteger rest ∧ input = mark :: rest := by
  have hmark : Lenient (orElse (token 'e') (token 'E')) := .orElse (.token 'e') (.token 'E')
  change optional (orElse (token 'e') (token 'E') >>= fun _ => required integer) input = .broken ↔ _
  rw [optional_eq_broken, bind_eq_broken, or_iff_right (hmark input)]
  constructor
  · rintro ⟨_, rest, htoken, hrest⟩
    have hmissing := (required_eq_broken.mp hrest).resolve_right (integer_lenient rest)
    rcases orElse_eq_found.mp htoken with h | ⟨-, h⟩
    · exact ⟨'e', rest, .inl rfl, integer_eq_missing.mp hmissing, token_eq_found.mp h⟩
    · exact ⟨'E', rest, .inr rfl, integer_eq_missing.mp hmissing, token_eq_found.mp h⟩
  · rintro ⟨mark, rest, hmark, hrest, rfl⟩
    refine ⟨(), rest, ?_, required_eq_broken.mpr (.inl (integer_eq_missing.mpr hrest))⟩
    rcases hmark with rfl | rfl <;> rfl

theorem numeral_eq_broken : numeral input = .broken ↔ CutShort input := by
  constructor
  · intro h
    obtain ⟨negative, left, hsign, h⟩ := (bind_eq_broken.mp h).resolve_left (sign_lenient input)
    obtain ⟨parts, left', hpointed, h⟩ := (bind_eq_broken.mp h).resolve_left (pointed_lenient left)
    have hpower : power left' = .broken :=
      (bind_eq_broken.mp h).resolve_right fun ⟨_, _, _, h⟩ => nomatch h
    obtain ⟨s, hs, rfl⟩ := sign_eq_found hsign
    obtain ⟨digits, hdigits, rfl⟩ := pointed_eq_found hpointed
    obtain ⟨mark, rest, hmark, hrest, rfl⟩ := power_eq_broken.mp hpower
    exact ⟨s, digits, mark, rest, hs, hdigits, hmark, hrest, rfl⟩
  · rintro ⟨s, digits, mark, rest, hs, hdigits, hmark, hrest, rfl⟩
    have hstops : StopsDigits (mark :: rest) := by
      refine ⟨mark, rest, rfl, ?_⟩
      rcases hmark with rfl | rfl <;> exact ⟨rfl, by decide⟩
    obtain ⟨parts, hpointed⟩ := exists_pointed hdigits hstops
    obtain ⟨c, tail, rfl, hc⟩ := hdigits.startsWith
    obtain ⟨hminus, hplus⟩ : c ≠ '-' ∧ c ≠ '+' := by
      rcases hc with hc | rfl
      · exact isDigit_not_sign hc
      · decide
    obtain ⟨negative, hsign⟩ := exists_sign hs hminus hplus (tail ++ mark :: rest)
    refine (bind_found hsign).trans ((bind_found hpointed).trans (bind_broken ?_))
    exact power_eq_broken.mpr ⟨mark, rest, hmark, hrest, rfl⟩

end Decimal

namespace Grammar

open Text Text.Scanner Decimal

variable {input : List Char}

/-- A number stops the alternatives where it is cut short, and nowhere else. -/
theorem number_eq_broken : number input = .broken ↔ CutShort input := by
  have hwords : Lenient (orElse (do wordLetters "nan"; return notANumber)
      (do wordLetters "inf"; return infinity)) :=
    .orElse (.bind (.letters _) fun _ => .pure _) (.bind (.letters _) fun _ => .pure _)
  rw [← numeral_eq_broken]
  refine orElse_eq_broken.trans ((or_iff_left fun h => hwords input h.2).trans ?_)
  exact bind_eq_broken.trans (or_iff_left fun ⟨_, _, _, h⟩ => nomatch h)

theorem coefficient_eq_broken : coefficient input = .broken ↔ CutShort input := by
  have hstar (v : Float) : Lenient (do spaces; token '*'; return v) :=
    .bind (.bind (.span _) fun _ => .pure _) fun _ => .bind (.token '*') fun _ => .pure _
  rw [← number_eq_broken]
  exact bind_eq_broken.trans (or_iff_left fun ⟨v, left, _, h⟩ => hstar v left h)

end Grammar

end LinkDiscovery
