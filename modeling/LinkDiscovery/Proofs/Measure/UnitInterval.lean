import LinkDiscovery.Proofs.Double.Shares
import LinkDiscovery.Proofs.Measure.EditScripts
import LinkDiscovery.Proofs.Measure.Similarity
/-!
The standard measures between zero and one. Each of them is a share of a whole that is counted: the words
in either text, the trigrams of both texts, or the characters of the longer one. A measure is one for a
text and itself, unless the text is blank and has neither words nor trigrams. Doubles take counts up to
`2 ^ 53` exactly, and for such wholes equal characters are the only way to reach one for the measures that
look at all characters.
-/

namespace LinkDiscovery

namespace Text

variable {text : List Char}

theorem lowerBetween_ne_nil (before : List Char) (c : Char) (after : List Char) :
    lowerBetween before c after ≠ [] := by
  unfold lowerBetween
  split
  · split <;> exact List.cons_ne_nil _ _
  · split <;> exact List.cons_ne_nil _ _

/-- Only the empty text is empty in small letters. -/
theorem lowerCase_ne_nil (h : text ≠ []) : lowerCase text ≠ [] := by
  obtain ⟨c, after, rfl⟩ := List.exists_cons_of_ne_nil h
  intro hnil
  exact lowerBetween_ne_nil [] c after (List.append_eq_nil_iff.mp hnil).1

/-- What is left of a text without the blanks at its ends is not empty, unless it is blank. -/
theorem trimChars_ne_nil (h : text.all isBlank = false) : trimChars text ≠ [] := by
  intro hnil
  have hrest : ∀ c ∈ text.dropWhile isBlank, isBlank c = true := by
    simpa [trimChars, trimEnd, List.dropWhile_eq_nil_iff] using hnil
  have hall : ∀ c ∈ text, isBlank c = true := by
    intro c hc
    rw [← List.takeWhile_append_dropWhile (p := isBlank) (l := text), List.mem_append] at hc
    rcases hc with hc | hc
    · exact List.mem_takeWhile_imp hc
    · exact hrest c hc
  rw [List.all_eq_true.mpr hall] at h
  cases h

/-- A text that is not blank has words. -/
theorem wordsAfter_ne_nil {word : List Char} (h : word ≠ [] ∨ text.all isBlank = false) :
    wordsAfter word text ≠ [] := by
  induction text generalizing word with
  | nil =>
      have hword : word ≠ [] := h.resolve_right (by simp)
      simp [wordsAfter, hword]
  | cons c text ih =>
      rw [wordsAfter]
      split
      · rename_i hblank
        split
        · rename_i hempty
          refine ih (.inr ?_)
          have hword : word = [] := by simpa using hempty
          simpa [hword, hblank] using h
        · exact List.cons_ne_nil _ _
      · exact ih (.inl (List.cons_ne_nil _ _))

theorem words_ne_nil {s : String} (h : isBlankText s = false) : words s ≠ [] :=
  wordsAfter_ne_nil (.inr h)

end Text

namespace Measure

theorem distance_eq_zero_iff {p q : List Char} : distance p q = 0 ↔ p = q := by
  constructor
  · intro h
    obtain ⟨script, hlength, hscript⟩ := script_distance p q
    rw [h, List.length_eq_zero_iff] at hlength
    subst hlength
    exact List.reverse_injective (Option.some.inj hscript)
  · rintro rfl
    exact distance_self p

/-- Only equal texts need no edits. -/
theorem editDistance_eq_zero_iff {as bs : List Char} : editDistance as bs = 0 ↔ as = bs := by
  rw [editDistance_eq, distance_eq_zero_iff, List.reverse_inj]

theorem eraseDups_ne_nil {α : Type} [BEq α] {as : List α} (h : as ≠ []) : as.eraseDups ≠ [] := by
  obtain ⟨a, as, rfl⟩ := List.exists_cons_of_ne_nil h
  rw [List.eraseDups_cons]
  exact List.cons_ne_nil _ _

theorem shared_self {α : Type} [BEq α] [LawfulBEq α] (xs : List α) : shared xs xs = xs.length := by
  rw [shared, List.filter_eq_self.mpr]
  exact fun x hx => List.contains_iff_mem.mpr hx

theorem wordSet_ne_nil {text : String} (h : Text.isBlankText text = false) : wordSet text ≠ [] :=
  eraseDups_ne_nil (mt List.map_eq_nil_iff.mp (Text.words_ne_nil h))

theorem trigramSet_ne_nil {text : String} (h : Text.isBlankText text = false) :
    trigramSet text ≠ [] := by
  obtain ⟨c, rest, hlowered⟩ :=
    List.exists_cons_of_ne_nil (Text.lowerCase_ne_nil (Text.trimChars_ne_nil h))
  simp only [trigramSet, hlowered]
  exact eraseDups_ne_nil (by simp [windows])

/-- The standard measures, each with the whole that it takes shares of. No count that a measure makes
is larger than its whole. -/
inductive TakesShares : Measure → (String → String → ℕ) → Prop
  | exactMatch : TakesShares exactMatch fun _ _ => 1
  | jaccard : TakesShares jaccard eitherWords
  | trigrams : TakesShares trigrams bothTrigrams
  | levenshtein : TakesShares levenshtein longerLength

variable {m : Measure} {whole : String → String → ℕ} {a b : String}

theorem TakesShares.symmetric (h : m.TakesShares whole) : m.Symmetric := by
  cases h with
  | exactMatch => exact exactMatch_symmetric
  | jaccard => exact jaccard_symmetric
  | trigrams => exact trigrams_symmetric
  | levenshtein => exact levenshtein_symmetric

theorem TakesShares.bounds (h : m.TakesShares whole) (hwhole : whole a b ≤ 2 ^ 64) :
    Double.IsUnsigned (m.similarity a b) ∧ m.similarity a b ≤ 1 := by
  cases h with
  | exactMatch =>
      simp only [Measure.exactMatch]
      split
      · exact ⟨Double.isUnsigned_of_pos (by decide), by decide⟩
      · exact ⟨Double.isUnsigned_zero, by decide⟩
  | jaccard => exact Double.share_bounds (shared_le_eitherWords a b) hwhole
  | trigrams =>
      rw [trigrams_eq_share]
      exact Double.share_bounds (two_mul_shared_le_bothTrigrams a b) hwhole
  | levenshtein =>
      obtain ⟨hunsigned, hle⟩ := Double.share_bounds (editDistance_le_longerLength a b) hwhole
      rw [levenshtein_eq_share]
      exact Double.one_sub_bounds hunsigned hle

/-- A text that is not blank is completely similar to itself. -/
theorem TakesShares.self (h : m.TakesShares whole) (hwhole : whole a a ≤ 2 ^ 64)
    (ha : Text.isBlankText a = false) : m.similarity a a = 1 := by
  cases h with
  | exactMatch => simp [Measure.exactMatch]
  | jaccard =>
      have hpos := List.length_pos_of_ne_nil (wordSet_ne_nil ha)
      have heither : eitherWords a a = (wordSet a).length := by
        rw [eitherWords, shared_self, Nat.add_sub_cancel]
      rw [heither] at hwhole
      rw [jaccard_eq_share, shared_self, heither, Double.share_self hpos hwhole]
  | trigrams =>
      have hpos := List.length_pos_of_ne_nil (trigramSet_ne_nil ha)
      have hboth : bothTrigrams a a = 2 * (trigramSet a).length := (Nat.two_mul _).symm
      rw [hboth] at hwhole
      rw [trigrams_eq_share, shared_self, hboth, Double.share_self (by omega) hwhole]
  | levenshtein =>
      rw [levenshtein_eq_share, editDistance_eq_zero_iff.mpr rfl, Double.share_zero hwhole]
      decide

theorem exactMatch_eq_one (h : exactMatch.similarity a b = 1) : a = b := by
  simp only [exactMatch] at h
  split at h
  · rename_i heq
    exact beq_iff_eq.mp heq
  · exact absurd h (by decide)

theorem levenshtein_eq_one (hwhole : longerLength a b ≤ 2 ^ 53)
    (h : levenshtein.similarity a b = 1) : a = b := by
  rw [levenshtein_eq_share] at h
  have hzero := Double.eq_zero_of_one_sub_share (editDistance_le_longerLength a b) hwhole h
  exact String.toList_inj.mp (editDistance_eq_zero_iff.mp hzero)

/-- The standard measures are symmetric similarities, between zero and one for all wholes that fit into a
machine word. Each of them finds a text that is not blank completely similar to itself, and the measures
that look at all characters find no other text completely similar to it, as far as doubles count the
whole exactly. -/
theorem standard_similarity (h : m.TakesShares whole) (a b : String) :
    m.similarity a b = m.similarity b a ∧
      (whole a b ≤ 2 ^ 64 → 0 ≤ m.similarity a b ∧ m.similarity a b ≤ 1) ∧
        (whole a a ≤ 2 ^ 64 → Text.isBlankText a = false → m.similarity a a = 1) ∧
          (whole a b ≤ 2 ^ 53 → m = exactMatch ∨ m = levenshtein → m.similarity a b = 1 → a = b) := by
  refine ⟨h.symmetric a b, fun hwhole => ?_, fun hwhole ha => h.self hwhole ha,
    fun hwhole hm hone => ?_⟩
  · obtain ⟨hunsigned, hle⟩ := h.bounds hwhole
    exact ⟨hunsigned.nonneg, hle⟩
  · cases h with
    | exactMatch => exact exactMatch_eq_one hone
    | levenshtein => exact levenshtein_eq_one hwhole hone
    | jaccard =>
        have hname := hm.imp (congrArg name) (congrArg name)
        exact absurd hname (by decide)
    | trigrams =>
        have hname := hm.imp (congrArg name) (congrArg name)
        exact absurd hname (by decide)

/-- Texts that share some characters. -/
theorem standard_similarity_sample :
    levenshtein.TakesShares longerLength ∧ longerLength "kitten" "sitting" ≤ 2 ^ 53 ∧
      levenshtein.similarity "kitten" "sitting" = levenshtein.similarity "sitting" "kitten" ∧
        (0 ≤ levenshtein.similarity "kitten" "sitting" ∧
          levenshtein.similarity "kitten" "sitting" ≤ 1) ∧
          levenshtein.similarity "kitten" "kitten" = 1 ∧
            levenshtein.similarity "kitten" "sitting" ≠ 1 := by
  obtain ⟨hcomm, hbounds, hself, hone⟩ := standard_similarity .levenshtein "kitten" "sitting"
  have hwhole : longerLength "kitten" "sitting" ≤ 2 ^ 53 := by decide
  exact ⟨.levenshtein, hwhole, hcomm, hbounds (hwhole.trans (by decide)),
    hself (by decide) (by decide), fun h => absurd (hone hwhole (.inr rfl) h) (by decide)⟩

end Measure

end LinkDiscovery
