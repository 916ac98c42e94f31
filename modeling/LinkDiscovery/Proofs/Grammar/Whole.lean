import LinkDiscovery.Proofs.Grammar.Recognition
/-!
Whole texts: a text is read if and only if it is a legible spelling between blanks, and the text of
a leaf is read again as its call.
-/

namespace LinkDiscovery.Grammar

open Text Text.Scanner

theorem isNameChar_range {c : Char} (h : isNameChar c = true) :
    (65 ≤ c.toNat ∧ c.toNat ≤ 90) ∨ (97 ≤ c.toNat ∧ c.toNat ≤ 122) ∨
      (48 ≤ c.toNat ∧ c.toNat ≤ 57) ∨ c.toNat = 95 ∨ c.toNat = 45 := by
  simp only [isNameChar, Char.isAlphanum, Char.isAlpha, Char.isUpper, Char.isLower, Char.isDigit,
    Bool.or_eq_true, Bool.and_eq_true, decide_eq_true_eq, beq_iff_eq, ge_iff_le,
    UInt32.le_iff_toNat_le] at h
  rcases h with (((h | h) | h) | rfl) | rfl
  · exact .inl h
  · exact .inr (.inl h)
  · exact .inr (.inr (.inl h))
  · decide
  · decide

theorem isNameChar_not_blank {c : Char} (h : isNameChar c = true) : isBlank c = false := by
  have hrange := isNameChar_range h
  simp only [isBlank, Bool.or_eq_false_iff, Bool.and_eq_false_iff, decide_eq_false_iff_not,
    beq_eq_false_iff_ne]
  omega

theorem isSpace_blank {c : Char} (h : isSpace c = true) : isBlank c = true := by
  rcases (by simpa [isSpace, or_assoc] using h : c = ' ' ∨ c = '\t' ∨ c = '\n' ∨ c = '\r') with
    rfl | rfl | rfl | rfl <;> rfl

theorem Blanks.isBlank {gap : List Char} (h : Blanks gap) : ∀ c ∈ gap, isBlank c = true :=
  fun c hc => isSpace_blank (h c hc)

theorem trim_padded {before text after : List Char} (hbefore : Blanks before)
    (hafter : Blanks after) : trimChars (before ++ (text ++ after)) = trimChars text := by
  rw [trimChars, trimChars, List.dropWhile_append_of_pos hbefore.isBlank, List.dropWhile_append]
  split
  · rename_i hempty
    rw [List.isEmpty_iff.mp hempty, List.dropWhile_eq_nil_iff.mpr hafter.isBlank]
  · exact trimEnd_append_blanks _ after (List.all_eq_true.mpr hafter.isBlank)

theorem trimChars_of_ends {first last : Char} {middle : List Char} (hfirst : isBlank first = false)
    (hlast : isBlank last = false) :
    trimChars (first :: (middle ++ [last])) = first :: (middle ++ [last]) := by
  simp [trimChars, trimEnd, hfirst, hlast]

namespace Spelling

/-- A spelling begins with a letter or digit of a name and ends with a parenthesis. -/
theorem Legible.ends {w : Spelling} (h : w.Legible) :
    ∃ first middle, isNameChar first = true ∧ w.chars = first :: (middle ++ [')']) := by
  cases w with
  | leaf name gap pieces =>
      obtain ⟨c, run, rfl⟩ := List.exists_cons_of_ne_nil h.name_ne
      exact ⟨c, run ++ (gap ++ '(' :: joined pieces), h.nameChars c List.mem_cons_self,
        by simp [chars]⟩
  | node k word gap f left g right =>
      obtain ⟨hne, hword⟩ := ofLetters?_chars h.1.1
      obtain ⟨c, run, rfl⟩ := List.exists_cons_of_ne_nil hne
      exact ⟨c, run ++ (gap ++ '(' :: (f.around left.chars ++ ',' :: g.around right.chars)),
        hword c List.mem_cons_self, by simp [chars]⟩

theorem Legible.trim {w : Spelling} (h : w.Legible) : trimChars w.chars = w.chars := by
  obtain ⟨first, middle, hfirst, hw⟩ := h.ends
  rw [hw]
  exact trimChars_of_ends (isNameChar_not_blank hfirst) rfl

theorem height_le (w : Spelling) : w.height ≤ w.chars.length := by
  induction w with
  | leaf name gap pieces => simp [height, chars]; omega
  | node k word gap f left g right ihl ihr =>
      simp only [height, chars, Frame.around, List.length_append, List.length_cons]
      omega

end Spelling

theorem whole_eq_some {α : Type} {p : Scanner α} {text : List Char} {a : α} :
    whole p text = some a ↔ p text = .found a [] := by
  unfold whole
  split <;> simp_all

/-- A text that is a legible spelling between blanks is read as its outline. -/
theorem parse_spelling {w : Spelling} (h : w.Legible) {text : String}
    (ht : trimChars text.toList = w.chars) : Outline.parse text = .ok w.outline := by
  have hread := Spelling.outline_found h w.height_le []
  rw [List.append_nil] at hread
  simp only [Outline.parse, ht, whole_eq_some.mpr hread]

theorem outline_of_parse {text : String} {o : Outline} (h : Outline.parse text = .ok o) :
    outline (trimChars text.toList).length (trimChars text.toList) = .found o [] := by
  simp only [Outline.parse] at h
  split at h
  · rename_i o' hwhole
    obtain rfl := Except.ok.inj h
    exact whole_eq_some.mp hwhole
  · cases h

/-- Only legible spellings are read. -/
theorem exists_spelling {text : String} {o : Outline} (h : Outline.parse text = .ok o) :
    ∃ w : Spelling, w.Legible ∧ w.outline = o ∧ trimChars text.toList = w.chars := by
  obtain ⟨w, hw, ho, hchars⟩ := outline_recognizes _ _ _ _ (outline_of_parse h)
  exact ⟨w, hw, ho, by simpa using hchars⟩

/-- The text of a leaf is read as its call. -/
theorem call_read {name gap : List Char} {pieces : List (List Char)}
    (h : Spelling.LegibleLeaf name gap pieces) :
    Call.read (String.ofList (Spelling.leaf name gap pieces).chars) =
      .ok { measure := String.ofList name, arguments := pieces.map argumentOf } := by
  have hcall := call_found h []
  rw [List.append_nil] at hcall
  have htrim := Spelling.Legible.trim (w := .leaf name gap pieces) h
  simp only [Call.read, String.toList_ofList, htrim, whole_eq_some.mpr hcall]

end LinkDiscovery.Grammar
