import LinkDiscovery.Proofs.Decimal.ReadBack
import LinkDiscovery.Proofs.Double.Order
import LinkDiscovery.Proofs.Grammar.Whole
import LinkDiscovery.Proofs.Specification.Nodes
/-!
Expressions that are written out: each term has a coefficient, numbers stand as doubles are printed,
and no measure is called like a keyword. Whatever the letters of the keywords and the blanks between
the tokens, such an expression is read as its tree.
-/

namespace LinkDiscovery.Grammar

open Text

/-- The coefficient of a term, one if none is written. -/
def Frame.coefficient (f : Frame) : Float :=
  (f.factor.map (·.figure.value)).getD 1

/-- An argument with blanks around it. -/
def IsPaddedArgument (piece : List Char) : Prop :=
  ∃ before argument after, piece = before ++ (argument ++ after) ∧ Blanks before ∧ Blanks after ∧
    argument ≠ [] ∧ IsPiece argument ∧ trimChars argument = argument

/-- The coefficient is printed and is positive and finite, and so is the threshold, which is
finite. -/
structure Frame.WrittenOut (f : Frame) : Prop where
  before : Blanks f.before
  factor : ∃ c gap after, f.factor = some ⟨.ofFloat c, gap, after⟩ ∧ Blanks gap ∧ Blanks after ∧
    c.isFinite = true ∧ 0 < c
  gap : Blanks f.gap
  lead : Blanks f.lead
  threshold : ∃ θ : Float, f.threshold = .ofFloat θ ∧ θ.isFinite = true
  after : Blanks f.after

namespace Frame

variable {f : Frame}

theorem WrittenOut.legible (h : f.WrittenOut) (inner : List Char) : f.Legible inner := by
  obtain ⟨c, gap, after, hfactor, hgap, hafter, hc, -⟩ := h.factor
  obtain ⟨θ, hthreshold, hθ⟩ := h.threshold
  refine ⟨h.before, ?_, ?_, h.gap, h.lead, ?_, h.after⟩
  · intro k hk
    obtain rfl : ⟨.ofFloat c, gap, after⟩ = k := by simpa [hfactor] using hk
    exact ⟨Figure.ofFloat_legible hc, hgap, hafter⟩
  · simp [hfactor]
  · rw [hthreshold]
    exact Figure.ofFloat_legible hθ

theorem WrittenOut.threshold_finite (h : f.WrittenOut) : f.threshold.value.isFinite = true := by
  obtain ⟨θ, hthreshold, hθ⟩ := h.threshold
  rw [hthreshold]
  exact hθ

theorem WrittenOut.coefficient (h : f.WrittenOut) :
    f.coefficient.isFinite = true ∧ ¬ f.coefficient ≤ 0 := by
  obtain ⟨c, gap, after, hfactor, -, -, hc, hpos⟩ := h.factor
  have hvalue : f.coefficient = c := by simp [Frame.coefficient, hfactor, Figure.ofFloat]
  rw [hvalue]
  exact ⟨hc, Score.not_le_of_lt hpos⟩

end Frame

namespace Spelling

/-- The compound over two terms. -/
def top (k : Keyword) (f : Frame) (left : Spelling) (g : Frame) (right : Spelling) : Compound where
  keyword := k
  left := f.term left.chars
  right := g.term right.chars

theorem ofOutline_node (k : Keyword) (word gap : List Char) (f : Frame) (left : Spelling) (g : Frame)
    (right : Spelling) (θ : Float) :
    Specification.ofOutline (node k word gap f left g right).outline θ =
      Specification.ofCompound (top k f left g right) θ
        (Specification.ofOutline left.outline ((top k f left g right).thresholds θ).1)
        (Specification.ofOutline right.outline ((top k f left g right).thresholds θ).2) := rfl

/-- The numbers are printed and finite, the coefficients are positive, and no measure is called like
a keyword. -/
def WrittenOut : Spelling → Prop
  | leaf name gap pieces =>
    (name ≠ [] ∧ (∀ c ∈ name, isNameChar c = true) ∧ Keyword.ofLetters? name = none) ∧
      Blanks gap ∧ pieces ≠ [] ∧ ∀ p ∈ pieces, IsPaddedArgument p
  | node k word gap f left g right =>
    Keyword.ofLetters? word = some k ∧ Blanks gap ∧ (f.WrittenOut ∧ left.WrittenOut) ∧
      g.WrittenOut ∧ right.WrittenOut

/-- The thresholds of two terms below a node with threshold `θ`. -/
def bounds (k : Keyword) (f g : Frame) (θ : Float) : Float × Float :=
  match k with
  | .and | .or | .xor | .minus => (f.threshold.value, g.threshold.value)
  | .min | .max => (θ, θ)
  | .add => ((θ - g.coefficient) / f.coefficient, (θ - f.coefficient) / g.coefficient)

/-- The tree that the spelling shows. -/
def tree : Spelling → Float → Specification
  | leaf name gap pieces, θ =>
    let text := String.ofList (leaf name gap pieces).chars
    .node
      { threshold := θ
        filter := some text
        full := text
        measure := some (String.ofList name)
        property₁ := (pieces.map argumentOf)[0]?
        property₂ := (pieces.map argumentOf)[1]? } []
  | node k _ _ f left g right, θ =>
    let leftTree := left.tree (bounds k f g θ).1
    let rightTree := right.tree (bounds k f g θ).2
    let weights := if k = .add then some (f.coefficient, g.coefficient) else none
    let full :=
      match weights with
      | some w => Specification.summed k.text w leftTree rightTree
      | none => Specification.listed k.text [leftTree, rightTree]
    .node { operator := some k.operator, threshold := θ, full, weights } [leftTree, rightTree]

theorem ofOutline_eq_tree (w : Spelling) (θ : Float) :
    Specification.ofOutline w.outline θ = w.tree θ := by
  induction w generalizing θ with
  | leaf name gap pieces => rfl
  | node k word gap f left g right ihl ihr =>
      have hbounds : (top k f left g right).thresholds θ = bounds k f g θ := by
        cases k <;> rfl
      rw [ofOutline_node, hbounds, ihl, ihr]
      rfl

theorem WrittenOut.legible {w : Spelling} (h : w.WrittenOut) : w.Legible := by
  induction w with
  | leaf name gap pieces =>
      obtain ⟨⟨hne, hname, hkeyword⟩, hgap, hpieces, hpadded⟩ := h
      refine ⟨hname, hne, hgap, fun p hp => ?_, hpieces, fun hk => absurd hkeyword hk⟩
      obtain ⟨before, argument, after, rfl, hbefore, hafter, hne, hpiece, htrim⟩ := hpadded p hp
      refine ⟨?_, by rwa [trim_padded hbefore hafter, htrim]⟩
      have hblank {gap : List Char} (h : Blanks gap) : IsPiece gap := by
        intro c hc
        rcases (by simpa [isSpace, or_assoc] using h c hc :
          c = ' ' ∨ c = '\t' ∨ c = '\n' ∨ c = '\r') with rfl | rfl | rfl | rfl <;> decide
      simp only [IsPiece, List.forall_mem_append]
      exact ⟨hblank hbefore, hpiece, hblank hafter⟩
  | node k word gap f left g right ihl ihr =>
      obtain ⟨hk, hgap, ⟨hf, hl⟩, hg, hr⟩ := h
      exact ⟨⟨hk, hgap⟩, ⟨hf.legible _, ihl hl⟩, hg.legible _, ihr hr⟩

theorem WrittenOut.fault? {w : Spelling} (h : w.WrittenOut) (text : String) :
    w.outline.fault? text = none := by
  induction w generalizing text with
  | leaf name gap pieces => rfl
  | node k word gap f left g right ihl ihr =>
      obtain ⟨hk, hgap, ⟨hf, hl⟩, hg, hr⟩ := h
      refine Outline.fault?_node.mpr ⟨Compound.fault?_eq_none.mpr ?_, ihl hl _, ihr hr _⟩
      exact ⟨⟨hf.threshold_finite, hg.threshold_finite⟩, fun _ => ⟨hf.coefficient, hg.coefficient⟩⟩

theorem WrittenOut.parse_outline {w : Spelling} (h : w.WrittenOut) {lead tail : List Char}
    (hlead : Blanks lead) (htail : Blanks tail) :
    Outline.parse (String.ofList (lead ++ (w.chars ++ tail))) = .ok w.outline := by
  have htrim : trimChars (String.ofList (lead ++ (w.chars ++ tail))).toList = w.chars := by
    rw [String.toList_ofList, trim_padded hlead htail, h.legible.trim]
  exact parse_spelling h.legible htrim

theorem WrittenOut.parse_chars {w : Spelling} (h : w.WrittenOut) (θ : Float) :
    Outline.parse (String.ofList w.chars) = .ok w.outline ∧
      Specification.parse (String.ofList w.chars) θ = .ok (Specification.ofOutline w.outline θ) := by
  have hnil : Blanks [] := by simp [Blanks]
  have ho := h.parse_outline hnil hnil
  rw [List.nil_append, List.append_nil] at ho
  exact ⟨ho, Specification.parse_eq_ok.mpr ⟨_, ho, h.fault? _, rfl⟩⟩

/-- Two weighted calls below a keyword. -/
def sample (k : Keyword) (word : List Char) : Spelling :=
  node k word [' ']
    { before := [' '], factor := some ⟨.ofFloat 0.5, [' '], []⟩, gap := ['\t'], lead := []
      threshold := .ofFloat 0.25, after := [] }
    (leaf "exactmatch".toList [] ["x.a".toList, " y.a".toList])
    { before := [], factor := some ⟨.ofFloat 0.5, [], []⟩, gap := [], lead := ['\n']
      threshold := .ofFloat 0.25, after := [' '] }
    (leaf "trigrams".toList [' '] ["x.b ".toList, "y.b".toList])

theorem sample_writtenOut {k : Keyword} {word : List Char}
    (h : Keyword.ofLetters? word = some k) : (sample k word).WrittenOut := by
  have hblanks : Blanks [] ∧ Blanks [' '] ∧ Blanks ['\t'] ∧ Blanks ['\n'] := by
    simp [Blanks, isSpace]
  obtain ⟨hnil, hspace, htab, hline⟩ := hblanks
  have hhalf : (0.5 : Float).isFinite = true ∧ (0 : Float) < 0.5 :=
    ⟨rfl, by decide⟩
  have hquarter : (0.25 : Float).isFinite = true := rfl
  have hargument (before argument after : List Char) (hbefore : Blanks before)
      (hafter : Blanks after) (hne : argument ≠ []) (hpiece : IsPiece argument)
      (htrim : trimChars argument = argument) :
      IsPaddedArgument (before ++ (argument ++ after)) :=
    ⟨before, argument, after, rfl, hbefore, hafter, hne, hpiece, htrim⟩
  refine ⟨h, hspace, ⟨⟨hspace, ⟨0.5, [' '], [], rfl, hspace, hnil, hhalf⟩, htab, hnil,
    ⟨0.25, rfl, hquarter⟩, hnil⟩, ?_⟩, ⟨hnil, ⟨0.5, [], [], rfl, hnil, hnil, hhalf⟩, hnil, hline,
    ⟨0.25, rfl, hquarter⟩, hspace⟩, ?_⟩
  · refine ⟨⟨by decide, List.all_eq_true.mp rfl, rfl⟩, hnil, by decide, fun p hp => ?_⟩
    rcases (by simpa using hp : p = ['x', '.', 'a'] ∨ p = [' ', 'y', '.', 'a']) with rfl | rfl
    · exact hargument [] ['x', '.', 'a'] [] hnil hnil (by decide) (by simp [IsPiece]) (by decide)
    · exact hargument [' '] ['y', '.', 'a'] [] hspace hnil (by decide) (by simp [IsPiece])
        (by decide)
  · refine ⟨⟨by decide, List.all_eq_true.mp rfl, rfl⟩, hspace, by decide, fun p hp => ?_⟩
    rcases (by simpa using hp : p = ['x', '.', 'b', ' '] ∨ p = ['y', '.', 'b']) with rfl | rfl
    · exact hargument [] ['x', '.', 'b'] [' '] hnil hspace (by decide) (by simp [IsPiece])
        (by decide)
    · exact hargument [] ['y', '.', 'b'] [] hnil hnil (by decide) (by simp [IsPiece]) (by decide)

end Spelling

end LinkDiscovery.Grammar

namespace LinkDiscovery.Specification

open Grammar Text

/-- An expression that is written out is read as its tree. -/
theorem parse_writtenOut {w : Spelling} (hw : w.WrittenOut) {lead tail : List Char}
    (hlead : Blanks lead) (htail : Blanks tail) (θ : Float) :
    parse (String.ofList (lead ++ (w.chars ++ tail))) θ = .ok (w.tree θ) :=
  parse_eq_ok.mpr ⟨_, hw.parse_outline hlead htail, hw.fault? _,
    (Spelling.ofOutline_eq_tree w θ).symm⟩

theorem parse_writtenOut_sample :
    (Spelling.sample .add ['a', 'D', 'd']).WrittenOut ∧ Blanks ['\n'] ∧ Blanks [' '] ∧
      parse (String.ofList (['\n'] ++ ((Spelling.sample .add ['a', 'D', 'd']).chars ++ [' ']))) 0.75 =
        .ok ((Spelling.sample .add ['a', 'D', 'd']).tree 0.75) := by
  have hw : (Spelling.sample .add ['a', 'D', 'd']).WrittenOut := Spelling.sample_writtenOut rfl
  have hlead : Blanks ['\n'] := by simp [Blanks, isSpace]
  have htail : Blanks [' '] := by simp [Blanks, isSpace]
  exact ⟨hw, hlead, htail, parse_writtenOut hw hlead htail 0.75⟩

end LinkDiscovery.Specification
