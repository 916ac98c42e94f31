import LinkDiscovery.Proofs.Grammar.Arguments
/-!
Expressions as they are spelled: the letters of every keyword, the digits of every number, every
coefficient that is written and every blank. A legible spelling is read as its outline, whatever
follows it.
-/

namespace LinkDiscovery.Grammar

open Text Text.Scanner

/-- The text begins with a closing character. -/
def StartsClosing (rest : List Char) : Prop :=
  ∃ c tail, rest = c :: tail ∧ isClosing c = true

/-- A number as it is written. -/
structure Figure where
  text : List Char
  value : Float

/-- The number is read in front of every closing character. -/
def Figure.Legible (f : Figure) : Prop :=
  ∀ rest, StartsClosing rest → number (f.text ++ rest) = .found f.value rest

/-- A coefficient, with the blanks in front of its star and behind it. -/
structure Factor where
  figure : Figure
  gap : List Char
  after : List Char

namespace Factor

def chars (k : Factor) : List Char :=
  k.figure.text ++ k.gap ++ '*' :: k.after

def Legible (k : Factor) : Prop :=
  k.figure.Legible ∧ Blanks k.gap ∧ Blanks k.after

end Factor

/-- What is written around the expression of a term: in front of it blanks and perhaps a coefficient,
and behind it the bar and the threshold, each with blanks around it. -/
structure Frame where
  before : List Char
  factor : Option Factor
  gap : List Char
  lead : List Char
  threshold : Figure
  after : List Char

namespace Frame

def factorChars (f : Frame) : List Char :=
  (f.factor.map Factor.chars).getD []

/-- The text of a term over the text of its expression. -/
def around (f : Frame) (inner : List Char) : List Char :=
  f.before ++ (f.factorChars ++ (inner ++ (f.gap ++ '|' :: (f.lead ++ (f.threshold.text ++ f.after)))))

/-- The term over the text of its expression. -/
def term (f : Frame) (inner : List Char) : Term where
  coefficient := (f.factor.map (·.figure.value)).getD 1
  text := String.ofList inner
  threshold := f.threshold.value

/-- The parts of a term can be told apart. Without a coefficient, the expression must not look like
one. -/
structure Legible (f : Frame) (inner : List Char) : Prop where
  before : Blanks f.before
  factor : ∀ k ∈ f.factor, k.Legible
  noFactor : f.factor = none → ∀ rest, coefficient (inner ++ rest) = .missing
  gap : Blanks f.gap
  lead : Blanks f.lead
  threshold : f.threshold.Legible
  after : Blanks f.after

end Frame

/-- An expression as it is spelled. -/
inductive Spelling where
  | leaf (name gap : List Char) (pieces : List (List Char))
  | node (keyword : Keyword) (word gap : List Char) (leftFrame : Frame) (left : Spelling)
    (rightFrame : Frame) (right : Spelling)

namespace Spelling

/-- The text. -/
def chars : Spelling → List Char
  | leaf name gap pieces => name ++ (gap ++ '(' :: (joined pieces ++ [')']))
  | node _ word gap f left g right =>
    word ++ (gap ++ '(' :: (f.around left.chars ++ ',' :: (g.around right.chars ++ [')'])))

/-- The outline that the spelling stands for. -/
def outline : Spelling → Outline
  | leaf name gap pieces =>
    .leaf (String.ofList (leaf name gap pieces).chars)
      { measure := String.ofList name, arguments := pieces.map argumentOf }
  | node keyword _ _ f left g right =>
    .node { keyword, left := f.term left.chars, right := g.term right.chars } left.outline
      right.outline

/-- The number of levels. -/
def height : Spelling → ℕ
  | leaf _ _ _ => 1
  | node _ _ _ _ left _ right => max left.height right.height + 1

/-- The parts of a call can be told apart, and the call is not cut off as the beginning of a compound:
after a keyword, its arguments must not begin like a number that is cut short. -/
structure LegibleLeaf (name gap : List Char) (pieces : List (List Char)) : Prop where
  nameChars : ∀ c ∈ name, isNameChar c = true
  name_ne : name ≠ []
  blanks : Blanks gap
  arguments : ∀ p ∈ pieces, IsPiece p ∧ trimChars p ≠ []
  pieces_ne : pieces ≠ []
  notCut : Keyword.ofLetters? name ≠ none → ∀ rest,
    coefficient ((joined pieces).dropWhile isSpace ++ ')' :: rest) ≠ .broken

/-- The spelling can be read. -/
def Legible : Spelling → Prop
  | leaf name gap pieces => LegibleLeaf name gap pieces
  | node keyword word gap f left g right =>
    (Keyword.ofLetters? word = some keyword ∧ Blanks gap) ∧
      (f.Legible left.chars ∧ left.Legible) ∧ (g.Legible right.chars ∧ right.Legible)

end Spelling

/-! Reading. -/

variable {rest : List Char}

theorem Blanks.startsClosing {gap : List Char} {c : Char} (h : Blanks gap)
    (hc : isClosing c = true) (rest : List Char) : StartsClosing (gap ++ c :: rest) := by
  cases gap with
  | nil => exact ⟨c, rest, rfl, hc⟩
  | cons d gap => exact ⟨d, gap ++ c :: rest, rfl, isSpace_isClosing (h d List.mem_cons_self)⟩

/-- A keyword in front of an opening parenthesis. -/
theorem keyword_open {word gap : List Char} {k : Keyword} (hk : Keyword.ofLetters? word = some k)
    (hgap : Blanks gap) (rest : List Char) :
    keyword (word ++ (gap ++ '(' :: rest)) = .found k (gap ++ '(' :: rest) := by
  obtain ⟨hne, hword⟩ := ofLetters?_chars hk
  obtain ⟨c, tail, htail, hc⟩ := hgap.startsClosing (c := '(') rfl rest
  rw [htail]
  exact keyword_found tail hword hne (isClosing_not_nameChar hc) hk

theorem Figure.Legible.text_ne {f : Figure} (h : f.Legible) : f.text ≠ [] := by
  intro hnil
  have hread := h [')'] ⟨')', [], rfl, rfl⟩
  rw [hnil, List.nil_append, number_closing rfl] at hread
  cases hread

theorem Figure.Legible.startsDark {f : Figure} (h : f.Legible) {c : Char} (hc : isClosing c = true) :
    StartsDark (f.text ++ c :: rest) := by
  obtain ⟨d, text, htext⟩ := List.exists_cons_of_ne_nil h.text_ne
  have hread := h (c :: rest) ⟨c, rest, rfl, hc⟩
  rw [htext]
  refine startsDark_cons (Bool.eq_false_iff.mpr fun hd => ?_)
  rw [htext, List.cons_append, number_closing (isSpace_isClosing hd)] at hread
  cases hread

theorem Figure.Legible.startsDark_padded {x : Figure} (h : x.Legible) {gap : List Char}
    (hgap : Blanks gap) {c : Char} (hc : isClosing c = true) (rest : List Char) :
    StartsDark (x.text ++ (gap ++ c :: rest)) := by
  obtain ⟨d, tail, hd, hclosing⟩ := hgap.startsClosing hc rest
  rw [hd]
  exact h.startsDark hclosing

theorem coefficient_found {k : Factor} (h : k.Legible) (tail : List Char) :
    coefficient (k.figure.text ++ (k.gap ++ '*' :: tail)) = .found k.figure.value tail := by
  refine (bind_found (h.1 _ (h.2.1.startsClosing rfl _))).trans ?_
  refine (bind_found (spaces_found h.2.1 (startsDark_cons rfl))).trans ?_
  exact bind_found (token_cons '*')

theorem term_found {inner : Scanner Outline} {text : List Char} {o : Outline} {f : Frame}
    (hf : f.Legible text) (hdark : ∀ rest, StartsDark (text ++ rest))
    (hinner : ∀ rest, inner (text ++ rest) = .found o rest) {c : Char}
    (hc : isClosing c = true) (hspace : isSpace c = false) (rest : List Char) :
    term inner (f.around text ++ c :: rest) = .found (f.term text, o) (c :: rest) := by
  have htail (rest) : StartsDark ('|' :: rest) := startsDark_cons rfl
  -- what follows the coefficient is read alike with and without one
  have hafter (v : Option Float) (gap : List Char) (hgap : Blanks gap) :
      (do
        spaces
        let p ← spelled inner
        spaces
        token '|'
        spaces
        let threshold ← number
        spaces
        return (({ coefficient := v.getD 1, text := p.1, threshold } : Term), p.2))
        (gap ++ (text ++ (f.gap ++ '|' :: (f.lead ++ (f.threshold.text ++ (f.after ++ c :: rest)))))) =
      .found ({ f.term text with coefficient := v.getD 1 }, o) (c :: rest) := by
    refine (bind_found (spaces_found hgap (hdark _))).trans ?_
    refine (bind_found (spelled_found text (hinner _))).trans ?_
    refine (bind_found (spaces_found hf.gap (htail _))).trans ?_
    refine (bind_found (token_cons '|')).trans ?_
    have hdigits := hf.threshold.startsDark_padded hf.after hc rest
    refine (bind_found (spaces_found hf.lead hdigits)).trans ?_
    refine (bind_found (hf.threshold _ (hf.after.startsClosing hc _))).trans ?_
    exact bind_found (spaces_found hf.after (startsDark_cons hspace))
  cases hk : f.factor with
  | none =>
      have hmissing := hf.noFactor hk
      simp only [Frame.around, Frame.factorChars, hk, Option.map_none, Option.getD_none,
        List.nil_append, List.append_assoc, List.cons_append]
      refine (bind_found (spaces_found hf.before (hdark _))).trans ?_
      refine (bind_found (optional_eq_found.mpr (.inr ⟨rfl, rfl, hmissing _⟩))).trans ?_
      refine (hafter none [] (by simp [Blanks])).trans ?_
      simp [Frame.term, hk]
  | some k =>
      have hkl := hf.factor k hk
      simp only [Frame.around, Frame.factorChars, Factor.chars, hk, Option.map_some,
        Option.getD_some, List.append_assoc, List.cons_append]
      have hdigits (rest) := hkl.1.startsDark_padded hkl.2.1 (c := '*') rfl rest
      refine (bind_found (spaces_found hf.before (hdigits _))).trans ?_
      refine (bind_found (optional_eq_found.mpr (.inl ⟨_, rfl, coefficient_found hkl _⟩))).trans ?_
      refine (hafter (some k.figure.value) k.after hkl.2.2).trans ?_
      simp [Frame.term, hk]

/-! A text without an opening parenthesis in front of a closing one holds no expression. -/

theorem token_open_missing {front : List Char} (h : '(' ∉ front) :
    token '(' (front ++ ')' :: rest) = .missing := by
  cases front with
  | nil => rfl
  | cons c front =>
      have hc : c ≠ '(' := fun heq => h (by simp [heq])
      simp [token, hc]

theorem spaces_close (front : List Char) :
    spaces (front ++ ')' :: rest) = .found () (front.dropWhile isSpace ++ ')' :: rest) := by
  change Scan.found () ((front ++ ')' :: rest).dropWhile isSpace) = _
  rw [dropWhile_stop front rfl]

theorem word_close (rest front : List Char) :
    word isNameChar (front ++ ')' :: rest) = .missing ∨
      word isNameChar (front ++ ')' :: rest) =
        .found (front.takeWhile isNameChar) (front.dropWhile isNameChar ++ ')' :: rest) := by
  unfold word
  rw [takeWhile_stop front rfl, dropWhile_stop front rfl]
  split
  · exact .inl rfl
  · exact .inr rfl

theorem not_mem_dropWhile {c : Char} {front : List Char} (h : c ∉ front) (inClass : Char → Bool) :
    c ∉ front.dropWhile inClass :=
  fun hmem => h ((List.dropWhile_suffix inClass).subset hmem)

theorem call_missing {front : List Char} (h : '(' ∉ front) :
    call (front ++ ')' :: rest) = .missing := by
  rcases word_close rest front with hword | hword
  · exact bind_missing (bind_missing hword)
  · have hname : name (front ++ ')' :: rest) = _ := bind_found hword
    refine (bind_found hname).trans ?_
    refine (bind_found (spaces_close _)).trans ?_
    exact bind_missing (token_open_missing (not_mem_dropWhile (not_mem_dropWhile h _) _))

theorem compound_missing {inner : Scanner Outline} {front : List Char} (h : '(' ∉ front) :
    compound inner (front ++ ')' :: rest) = .missing := by
  rcases word_close rest front with hword | hword
  · exact bind_missing (by simp [keyword, hword])
  · cases hk : Keyword.ofLetters? (front.takeWhile isNameChar) with
    | none => exact bind_missing (by simp [keyword, hword, hk])
    | some k =>
        have hkeyword : keyword (front ++ ')' :: rest) =
            .found k (front.dropWhile isNameChar ++ ')' :: rest) := by
          simp [keyword, hword, hk]
        refine (bind_found hkeyword).trans ?_
        refine (bind_found (spaces_close _)).trans ?_
        exact bind_missing (token_open_missing (not_mem_dropWhile (not_mem_dropWhile h _) _))

theorem outline_missing {front : List Char} (h : '(' ∉ front) (depth : ℕ) :
    outline depth (front ++ ')' :: rest) = .missing := by
  cases depth with
  | zero => rfl
  | succ depth =>
      rw [outline, orElse_missing (compound_missing h)]
      exact bind_missing (spelled_missing (call_missing h))

/-- Arguments are no term. An attempt to read them as one goes wrong only at a coefficient that is
cut short. -/
theorem term_arguments {front : List Char} (rest : List Char) (h : '(' ∉ front) (depth : ℕ) :
    (term (outline depth) (front ++ ')' :: rest) = .missing ∧
        coefficient (front.dropWhile isSpace ++ ')' :: rest) ≠ .broken) ∨
      (term (outline depth) (front ++ ')' :: rest) = .broken ∧
        coefficient (front.dropWhile isSpace ++ ')' :: rest) = .broken) := by
  -- after a coefficient or none, what is left is an end of the arguments
  have hinner (left : List Char) (hleft : left <:+ front.dropWhile isSpace) :
      outline depth (left.dropWhile isSpace ++ ')' :: rest) = .missing :=
    outline_missing (not_mem_dropWhile
      (fun hmem => not_mem_dropWhile h isSpace (hleft.subset hmem)) _) depth
  obtain ⟨outcome, hhalt⟩ := coefficient_halts (front.dropWhile isSpace)
  have hhalt := hhalt ')' rest rfl
  cases outcome with
  | found v left =>
      refine .inl ⟨?_, by simp [hhalt, Scan.before]⟩
      have hleft : left <:+ front.dropWhile isSpace := by
        have hadv := coefficient_advances _ _ _ hhalt
        exact (List.suffix_append_inj_of_length_eq rfl).mp hadv |>.1
      refine (bind_found (spaces_close front)).trans ?_
      refine (bind_found (optional_eq_found.mpr (.inl ⟨v, rfl, hhalt⟩))).trans ?_
      refine (bind_found (spaces_close left)).trans ?_
      exact bind_missing (spelled_missing (hinner left hleft))
  | missing =>
      refine .inl ⟨?_, by simp [hhalt, Scan.before]⟩
      refine (bind_found (spaces_close front)).trans ?_
      refine (bind_found (optional_eq_found.mpr (.inr ⟨rfl, rfl, hhalt⟩))).trans ?_
      refine (bind_found (spaces_close _)).trans ?_
      exact bind_missing (spelled_missing (hinner _ List.suffix_rfl))
  | broken =>
      refine .inr ⟨?_, hhalt⟩
      refine (bind_found (spaces_close front)).trans ?_
      exact bind_broken (optional_broken (p := coefficient) hhalt)

/-! Calls. -/

theorem call_found {name gap : List Char} {pieces : List (List Char)}
    (h : Spelling.LegibleLeaf name gap pieces) (rest : List Char) :
    call ((Spelling.leaf name gap pieces).chars ++ rest) =
      .found { measure := String.ofList name, arguments := pieces.map argumentOf } rest := by
  simp only [Spelling.chars, List.append_assoc, List.cons_append, List.nil_append]
  obtain ⟨c, tail, htail, hc⟩ :=
    h.blanks.startsClosing (c := '(') rfl (joined pieces ++ ')' :: rest)
  have hname := name_found tail h.nameChars h.name_ne (isClosing_not_nameChar hc)
  rw [← htail] at hname
  refine (bind_found hname).trans ?_
  refine (bind_found (spaces_found h.blanks (startsDark_cons rfl))).trans ?_
  refine (bind_found (token_cons '(')).trans ?_
  exact bind_found (arguments_found h.pieces_ne h.arguments)

/-- A call is not read as a compound, even if its measure has the name of a keyword. -/
theorem compound_leaf {name gap : List Char} {pieces : List (List Char)}
    (h : Spelling.LegibleLeaf name gap pieces) (depth : ℕ) :
    compound (outline depth) ((Spelling.leaf name gap pieces).chars ++ rest) = .missing := by
  simp only [Spelling.chars, List.append_assoc, List.cons_append, List.nil_append]
  cases hk : Keyword.ofLetters? name with
  | none =>
      obtain ⟨c, tail, htail, hc⟩ :=
        h.blanks.startsClosing (c := '(') rfl (joined pieces ++ ')' :: rest)
      rw [htail]
      exact bind_missing (keyword_missing h.nameChars h.name_ne (isClosing_not_nameChar hc) hk)
  | some k =>
      -- the arguments are then tried as a term, and they hold no expression to read
      refine (bind_found (keyword_open hk h.blanks _)).trans ?_
      refine (bind_found (spaces_found h.blanks (startsDark_cons rfl))).trans ?_
      refine (bind_found (token_cons '(')).trans ?_
      have hopen := parenthesis_not_mem_joined fun p hp => (h.arguments p hp).1
      rcases term_arguments rest hopen depth with ⟨hterm, -⟩ | ⟨-, hcut⟩
      · exact bind_missing hterm
      · exact absurd hcut (h.notCut (by simp [hk]) rest)

namespace Spelling

theorem Legible.startsDark {w : Spelling} (h : w.Legible) (rest : List Char) :
    StartsDark (w.chars ++ rest) := by
  cases w with
  | leaf name gap pieces =>
      obtain ⟨c, run, rfl⟩ := List.exists_cons_of_ne_nil h.name_ne
      exact startsDark_cons (isNameChar_not_space (h.nameChars c List.mem_cons_self))
  | node k word gap f left g right =>
      obtain ⟨hne, hword⟩ := ofLetters?_chars h.1.1
      obtain ⟨c, run, rfl⟩ := List.exists_cons_of_ne_nil hne
      exact startsDark_cons (isNameChar_not_space (hword c List.mem_cons_self))

/-- A legible spelling is read as its outline, whatever follows it. -/
theorem outline_found {w : Spelling} (h : w.Legible) {depth : ℕ} (hd : w.height ≤ depth)
    (rest : List Char) : Grammar.outline depth (w.chars ++ rest) = .found w.outline rest := by
  induction w generalizing depth rest with
  | leaf name gap pieces =>
      cases depth with
      | zero => simp [height] at hd
      | succ depth =>
          rw [Grammar.outline, orElse_missing (compound_leaf h depth)]
          exact bind_found (spelled_found _ (call_found h _))
  | node k word gap f left g right ihl ihr =>
      obtain ⟨⟨hk, hgap⟩, ⟨hf, hl⟩, hg, hr⟩ := h
      cases depth with
      | zero => simp [height] at hd
      | succ depth =>
          have hdepth : left.height ≤ depth ∧ right.height ≤ depth := by
            simpa [height, Nat.max_le] using hd
          rw [Grammar.outline]
          refine orElse_found ?_
          simp only [chars, List.append_assoc, List.cons_append, List.nil_append]
          refine (bind_found (keyword_open hk hgap _)).trans ?_
          refine (bind_found (spaces_found hgap (startsDark_cons rfl))).trans ?_
          refine (bind_found (token_cons '(')).trans ?_
          have hleft := term_found (c := ',') hf hl.startsDark (ihl hl hdepth.1) rfl rfl
            (g.around right.chars ++ ')' :: rest)
          have hright := term_found (c := ')') hg hr.startsDark (ihr hr hdepth.2) rfl rfl rest
          refine (bind_found hleft).trans ?_
          refine (bind_found (token_cons ',')).trans ?_
          refine (bind_found hright).trans ?_
          exact bind_found (token_cons ')')

end Spelling

end LinkDiscovery.Grammar
