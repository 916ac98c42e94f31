import LinkDiscovery.Expression.Grammar
import LinkDiscovery.Proofs.Grammar.Scanner
/-!
The tokens of expressions: blanks, names, numbers and the optional coefficient of a term. A number
ends in front of the next closing character, and an attempt at a coefficient is settled in front of
the next parenthesis.
-/

namespace LinkDiscovery.Grammar

open Text Text.Scanner

variable {input rest : List Char}

/-- The characters that may follow a number. -/
def isClosing (c : Char) : Bool :=
  isSpace c || c == '*' || c == '(' || c == ')' || c == ',' || c == '|'

def isParenthesis (c : Char) : Bool :=
  c == '(' || c == ')'

theorem isClosing_cases {c : Char} (h : isClosing c = true) :
    c = ' ' ∨ c = '\t' ∨ c = '\n' ∨ c = '\r' ∨ c = '*' ∨ c = '(' ∨ c = ')' ∨ c = ',' ∨ c = '|' := by
  simpa [isClosing, isSpace, or_assoc] using h

theorem isParenthesis_isClosing {c : Char} (h : isParenthesis c = true) : isClosing c = true := by
  rcases (by simpa [isParenthesis] using h : c = '(' ∨ c = ')') with rfl | rfl <;> rfl

theorem isParenthesis_not_space {c : Char} (h : isParenthesis c = true) : isSpace c = false := by
  rcases (by simpa [isParenthesis] using h : c = '(' ∨ c = ')') with rfl | rfl <;> rfl

theorem isClosing_not_nameChar {c : Char} (h : isClosing c = true) : isNameChar c = false := by
  rcases isClosing_cases h with rfl | rfl | rfl | rfl | rfl | rfl | rfl | rfl | rfl <;> rfl

theorem isSpace_isClosing {c : Char} (h : isSpace c = true) : isClosing c = true := by
  simp [isClosing, h]

theorem isNameChar_not_space {c : Char} (h : isNameChar c = true) : isSpace c = false := by
  by_contra hc
  rw [isClosing_not_nameChar (isSpace_isClosing (Bool.not_eq_false _ ▸ hc))] at h
  cases h

/-! Blanks. -/

/-- A row of blanks, tabs and line ends. -/
def Blanks (gap : List Char) : Prop :=
  ∀ c ∈ gap, isSpace c = true

/-- The text does not begin with a blank. -/
def StartsDark (text : List Char) : Prop :=
  ∀ c ∈ text.head?, isSpace c = false

theorem startsDark_cons {c : Char} (h : isSpace c = false) : StartsDark (c :: rest) := by
  simpa [StartsDark] using h

theorem spaces_found {gap : List Char} (hgap : Blanks gap) (hrest : StartsDark rest) :
    spaces (gap ++ rest) = .found () rest := by
  change Scan.found () ((gap ++ rest).dropWhile isSpace) = _
  rw [List.dropWhile_append_of_pos hgap]
  cases rest with
  | nil => rfl
  | cons c rest => simp [hrest c rfl]

theorem spaces_eq_found {u : Unit} (h : spaces input = .found u rest) :
    ∃ gap, input = gap ++ rest ∧ Blanks gap ∧ StartsDark rest := by
  have hrest : input.dropWhile isSpace = rest := (Scan.found.inj h).2
  refine ⟨input.takeWhile isSpace, ?_, fun c hc => List.mem_takeWhile_imp hc, ?_⟩
  · rw [← hrest, List.takeWhile_append_dropWhile]
  · intro c hc
    rw [← hrest] at hc
    have hnot := List.head?_dropWhile_not isSpace input
    rw [Option.mem_def.mp hc] at hnot
    simpa using hnot

theorem spaces_advances : Advances spaces :=
  .bind (.span isSpace) fun _ => .pure ()

theorem spaces_halts {stops : Char → Bool} (h : ∀ c, stops c = true → isSpace c = false) :
    Halts stops spaces :=
  .bind (.span h) fun _ => .pure ()

/-! Names and keywords. -/

theorem isAlpha_of_toLower {c : Char} (h : c.toLower.isLower = true) : c.isAlpha = true := by
  unfold Char.toLower at h
  split at h
  · rename_i hc
    have hupper : c.isUpper = true := by
      simpa [Char.isUpper] using hc
    simp [Char.isAlpha, hupper]
  · simp [Char.isAlpha, h]

theorem isNameChar_of_toLower {c : Char} (h : c.toLower.isLower = true) :
    isNameChar c = true := by
  simp [isNameChar, Char.isAlphanum, isAlpha_of_toLower h]

/-- A keyword is a row of letters. -/
theorem ofLetters?_chars {word : List Char} {k : Keyword} (h : Keyword.ofLetters? word = some k) :
    word ≠ [] ∧ ∀ c ∈ word, isNameChar c = true := by
  have hlower : word.map Char.toLower ≠ [] ∧ (word.map Char.toLower).all Char.isLower = true := by
    unfold Keyword.ofLetters? at h
    split at h <;> first | (rename_i heq; rw [heq]; exact ⟨List.cons_ne_nil _ _, rfl⟩) | cases h
  refine ⟨fun hnil => hlower.1 (by rw [hnil]; rfl), fun c hc => ?_⟩
  exact isNameChar_of_toLower (List.all_eq_true.mp hlower.2 _ (List.mem_map_of_mem hc))

theorem word_found {run : List Char} {c : Char} (hrun : ∀ d ∈ run, isNameChar d = true)
    (hne : run ≠ []) (hc : isNameChar c = false) :
    word isNameChar (run ++ c :: rest) = .found run (c :: rest) := by
  rw [word_eq_found, List.takeWhile_append_of_pos hrun, List.dropWhile_append_of_pos hrun]
  simp [hc, hne]

theorem name_found {run : List Char} {c : Char} (rest : List Char)
    (hrun : ∀ d ∈ run, isNameChar d = true)
    (hne : run ≠ []) (hc : isNameChar c = false) :
    name (run ++ c :: rest) = .found (String.ofList run) (c :: rest) :=
  bind_found (word_found hrun hne hc)

theorem word_eq_found_run {run : List Char} (h : word isNameChar input = .found run rest) :
    input = run ++ rest ∧ run ≠ [] ∧ ∀ c ∈ run, isNameChar c = true := by
  obtain ⟨hne, hrun, hrest⟩ := word_eq_found.mp h
  refine ⟨?_, hne, fun c hc => ?_⟩
  · rw [← hrun, ← hrest, List.takeWhile_append_dropWhile]
  · exact List.mem_takeWhile_imp (hrun ▸ hc)

theorem name_eq_found {s : String} (h : name input = .found s rest) :
    ∃ run, s = String.ofList run ∧ input = run ++ rest ∧ run ≠ [] ∧
      ∀ c ∈ run, isNameChar c = true := by
  obtain ⟨run, left, hword, hs⟩ := bind_eq_found.mp h
  obtain ⟨rfl, rfl⟩ := Scan.found.inj (pure_apply.symm.trans hs)
  exact ⟨run, rfl, word_eq_found_run hword⟩

theorem keyword_eq_found {k : Keyword} (h : keyword input = .found k rest) :
    ∃ run, Keyword.ofLetters? run = some k ∧ input = run ++ rest ∧ run ≠ [] ∧
      ∀ c ∈ run, isNameChar c = true := by
  unfold keyword at h
  split at h
  · rename_i run left hword
    split at h
    · rename_i k' hk
      obtain ⟨rfl, rfl⟩ := Scan.found.inj h
      exact ⟨run, hk, word_eq_found_run hword⟩
    · cases h
  · cases h

theorem keyword_found {run : List Char} {c : Char} {k : Keyword} (rest : List Char)
    (hrun : ∀ d ∈ run, isNameChar d = true) (hne : run ≠ []) (hc : isNameChar c = false)
    (hk : Keyword.ofLetters? run = some k) :
    keyword (run ++ c :: rest) = .found k (c :: rest) := by
  simp [keyword, word_found hrun hne hc, hk]

theorem keyword_missing {run : List Char} {c : Char}
    (hrun : ∀ d ∈ run, isNameChar d = true) (hne : run ≠ []) (hc : isNameChar c = false)
    (hk : Keyword.ofLetters? run = none) :
    keyword (run ++ c :: rest) = .missing := by
  simp [keyword, word_found hrun hne hc, hk]

/-! Numbers. -/

theorem sign_absent {c : Char} (hminus : c ≠ '-') (hplus : c ≠ '+') :
    Decimal.sign (c :: rest) = .found false (c :: rest) := by
  have hm : token '-' (c :: rest) = .missing := by simp [token, hminus]
  have hp : token '+' (c :: rest) = .missing := by simp [token, hplus]
  refine (orElse_missing (bind_missing hm)).trans ?_
  exact (orElse_missing (bind_missing hp)).trans pure_apply

theorem sign_advances : Advances Decimal.sign :=
  .orElse (.bind (.token '-') fun _ => .pure true)
    (.orElse (.bind (.token '+') fun _ => .pure false) (.pure false))

theorem pointed_advances : Advances Decimal.pointed :=
  .orElse
    (.bind (.word _) fun _ =>
      .bind (.optional (.bind (.token '.') fun _ => .span _)) fun _ => .pure _)
    (.bind (.token '.') fun _ => .bind (.word _) fun _ => .pure _)

theorem power_advances : Advances Decimal.power :=
  .optional (.bind (.orElse (.token 'e') (.token 'E')) fun _ =>
    .required (.bind sign_advances fun _ => .bind (.word _) fun _ => .pure _))

theorem number_advances : Advances number :=
  .orElse
    (.bind (.bind sign_advances fun _ => .bind pointed_advances fun _ =>
      .bind power_advances fun _ => .pure _) fun _ => .pure _)
    (.orElse (.bind (.letters _) fun _ => .pure _) (.bind (.letters _) fun _ => .pure _))

theorem isClosing_not_digit {c : Char} (h : isClosing c = true) : c.isDigit = false := by
  rcases isClosing_cases h with rfl | rfl | rfl | rfl | rfl | rfl | rfl | rfl | rfl <;> rfl

theorem isClosing_not_letter {c : Char} (h : isClosing c = true) :
    c.toLower ∉ "nan".toList ∧ c.toLower ∉ "inf".toList := by
  rcases isClosing_cases h with rfl | rfl | rfl | rfl | rfl | rfl | rfl | rfl | rfl <;> decide

theorem sign_halts : Halts isClosing Decimal.sign :=
  .orElse (.bind (.token rfl) fun _ => .pure true)
    (.orElse (.bind (.token rfl) fun _ => .pure false) (.pure false))

theorem pointed_halts : Halts isClosing Decimal.pointed :=
  .orElse
    (.bind (.word fun _ => isClosing_not_digit) fun _ =>
      .bind (.optional (.bind (.token rfl) fun _ => .span fun _ => isClosing_not_digit))
        fun _ => .pure _)
    (.bind (.token rfl) fun _ => .bind (.word fun _ => isClosing_not_digit) fun _ => .pure _)

theorem power_halts : Halts isClosing Decimal.power :=
  .optional (.bind (.orElse (.token rfl) (.token rfl)) fun _ =>
    .required (.bind sign_halts fun _ =>
      .bind (.word fun _ => isClosing_not_digit) fun _ => .pure _))

/-- What follows a closing character does not change how a number is read. -/
theorem number_halts : Halts isClosing number :=
  .orElse
    (.bind (.bind sign_halts fun _ => .bind pointed_halts fun _ =>
      .bind power_halts fun _ => .pure _) fun _ => .pure _)
    (.orElse
      (.bind (.letters fun _ h => (isClosing_not_letter h).1) fun _ => .pure _)
      (.bind (.letters fun _ h => (isClosing_not_letter h).2) fun _ => .pure _))

/-- No number begins with a closing character. -/
theorem number_closing {c : Char} (h : isClosing c = true) : number (c :: rest) = .missing := by
  rcases isClosing_cases h with rfl | rfl | rfl | rfl | rfl | rfl | rfl | rfl | rfl <;> rfl

/-- The coefficient of a term. -/
def coefficient : Scanner Float := do
  let value ← number
  spaces
  token '*'
  return value

theorem coefficient_advances : Advances coefficient :=
  .bind number_advances fun _ => .bind spaces_advances fun _ => .bind (.token '*') fun _ => .pure _

theorem coefficient_halts : Halts isParenthesis coefficient :=
  .bind (fun front => (number_halts front).imp fun _ h c rest hc =>
      h c rest (isParenthesis_isClosing hc)) fun _ =>
    .bind (spaces_halts fun _ => isParenthesis_not_space) fun _ =>
      .bind (.token rfl) fun _ => .pure _

end LinkDiscovery.Grammar
