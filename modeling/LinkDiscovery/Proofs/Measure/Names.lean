import LinkDiscovery.Proofs.Measure.Resolution
/-!
Expressions that begin with a letter which begins no number. All keywords and all names of standard
measures do, so that such expressions can stand in terms without a coefficient.
-/

namespace LinkDiscovery.Grammar

open Text Text.Scanner

variable {c : Char} {rest : List Char}

theorem isAlpha_not_numeral (h : c.isAlpha = true) :
    c.isDigit = false ∧ c ≠ '-' ∧ c ≠ '+' ∧ c ≠ '.' := by
  refine ⟨?_, ?_, ?_, ?_⟩
  · simp only [Char.isAlpha, Char.isUpper, Char.isLower, Char.isDigit, Bool.or_eq_true,
      Bool.and_eq_true, decide_eq_true_eq, ge_iff_le, UInt32.le_iff_toNat_le,
      Bool.and_eq_false_iff, decide_eq_false_iff_not] at h ⊢
    have hnine : '9'.val.toNat = 57 := rfl
    have hcapital : 'A'.val.toNat = 65 := rfl
    have hsmall : 'a'.val.toNat = 97 := rfl
    omega
  all_goals
    rintro rfl
    exact absurd h (by decide)

/-- No number begins with a letter, but for the words `nan` and `inf`. -/
theorem number_letter (h : c.isAlpha = true) (hn : c.toLower ≠ 'n') (hi : c.toLower ≠ 'i') :
    number (c :: rest) = .missing := by
  obtain ⟨hdigit, hminus, hplus, hpoint⟩ := isAlpha_not_numeral h
  have hpointed : Decimal.pointed (c :: rest) = .missing := by
    have hw : word Char.isDigit (c :: rest) = .missing := by simp [word, hdigit]
    have hp : token '.' (c :: rest) = .missing := by simp [token, hpoint]
    exact (orElse_missing (bind_missing hw)).trans (bind_missing hp)
  have hnumeral : Decimal.numeral (c :: rest) = .missing :=
    (bind_found (sign_absent hminus hplus)).trans (bind_missing hpointed)
  have hnan : wordLetters "nan" (c :: rest) = .missing := by
    change letters ['n', 'a', 'n'] (c :: rest) = .missing
    simp [letters, hn]
  have hinf : wordLetters "inf" (c :: rest) = .missing := by
    change letters ['i', 'n', 'f'] (c :: rest) = .missing
    simp [letters, hi]
  refine (orElse_missing (bind_missing hnumeral)).trans ?_
  exact (orElse_missing (bind_missing hnan)).trans (bind_missing hinf)

theorem coefficient_letter (h : c.isAlpha = true) (hn : c.toLower ≠ 'n') (hi : c.toLower ≠ 'i') :
    coefficient (c :: rest) = .missing :=
  bind_missing (number_letter h hn hi)

end LinkDiscovery.Grammar

namespace LinkDiscovery

open Grammar

/-- The names of the standard measures. -/
theorem Registry.standard_names : standard.names =
    ["exactmatch", "jaccard", "levenshtein", "trigram", "trigrams"] := by
  decide

theorem Registry.standard_known {name : String} (h : (standard.measure? name).isSome) :
    Text.lowerLetters name ∈ ["exactmatch", "jaccard", "levenshtein", "trigram", "trigrams"] := by
  rw [← standard_names, names, Std.ExtTreeMap.mem_keys]
  simpa [measure?] using h

/-- What holds of the four measures holds of all that are registered at first. -/
theorem Registry.standard_measure {P : Measure → Prop} {name : String} {m : Measure}
    (h : standard.measure? name = some m) (exactMatch : P .exactMatch) (jaccard : P .jaccard)
    (levenshtein : P .levenshtein) (trigrams : P .trigrams) : P m := by
  have hname := standard_known (h ▸ rfl : (standard.measure? name).isSome)
  simp only [List.mem_cons, List.not_mem_nil, or_false] at hname
  rw [measure?] at h
  rcases hname with hname | hname | hname | hname | hname <;> rw [hname] at h
  · exact Option.some.inj h ▸ exactMatch
  · exact Option.some.inj h ▸ jaccard
  · exact Option.some.inj h ▸ levenshtein
  · exact Option.some.inj h ▸ trigrams
  · exact Option.some.inj h ▸ trigrams

theorem Registry.standard_letters {name : List Char}
    (h : (standard.measure? (String.ofList name)).isSome) : name.map Char.toLower ∈
      ["exactmatch", "jaccard", "levenshtein", "trigram", "trigrams"].map String.toList := by
  simpa [Text.lowerLetters] using List.mem_map_of_mem (f := String.toList) (standard_known h)

/-- No standard measure is called like a keyword. -/
theorem Registry.standard_not_keyword {name : List Char}
    (h : (standard.measure? (String.ofList name)).isSome) : Keyword.ofLetters? name = none := by
  have hletters := standard_letters h
  simp only [List.map_cons, List.map_nil, List.mem_cons, List.not_mem_nil, or_false] at hletters
  unfold Keyword.ofLetters?
  rcases hletters with h | h | h | h | h <;> rw [h] <;> rfl

namespace Grammar.Spelling

/-- What stands in front of a keyword or a standard measure is no coefficient. -/
theorem bare_letters {letters word : List Char} {c : Char} {rest : List Char}
    (hword : word.map Char.toLower = c :: rest) (hc : c.isLower = true) (hn : c ≠ 'n')
    (hi : c ≠ 'i') : coefficient (word ++ letters) = .missing := by
  cases word with
  | nil => cases hword
  | cons d word =>
      obtain ⟨rfl, -⟩ := List.cons.inj hword
      exact coefficient_letter (isAlpha_of_toLower hc) hn hi

/-- Compounds can do without coefficients. -/
theorem bare_node {k : Keyword} {word gap : List Char} {f g : Frame} {left right : Spelling}
    (hword : Keyword.ofLetters? word = some k) : (node k word gap f left g right).Bare := by
  intro rest
  simp only [chars, List.append_assoc]
  -- one case for each keyword; none begins like a number
  unfold Keyword.ofLetters? at hword
  split at hword <;> try cases hword
  all_goals
    rename_i hletters
    exact bare_letters hletters (by decide) (by decide) (by decide)

/-- Expressions by standard measures can do without coefficients. -/
theorem bare_of_standard {w : Spelling} (hw : w.Legible) (h : w.outline.ComparesBy .standard) :
    w.Bare := by
  cases w with
  | leaf name gap pieces =>
      intro rest
      have hletters := Registry.standard_letters h.2
      simp only [chars, List.append_assoc]
      simp only [List.map_cons, List.map_nil, List.mem_cons, List.not_mem_nil, or_false] at hletters
      rcases hletters with h | h | h | h | h <;>
        exact bare_letters h (by decide) (by decide) (by decide)
  | node k word gap f left g right => exact bare_node hw.1.1

theorem bareTerms_of_standard {w : Spelling} (hw : w.Legible)
    (h : w.outline.ComparesBy .standard) : w.BareTerms := by
  induction w with
  | leaf name gap pieces => trivial
  | node k word gap f left g right ihl ihr =>
      obtain ⟨-, ⟨-, hl⟩, -, hr⟩ := hw
      exact ⟨fun _ => ⟨bare_of_standard hl h.1, bare_of_standard hr h.2⟩, ihl hl h.1, ihr hr h.2⟩

end Grammar.Spelling

end LinkDiscovery
