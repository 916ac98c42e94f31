import LinkDiscovery.Proofs.Specification.WrittenOut
/-!
The full text of a specification is a spelling of its own: keywords in capitals, one blank behind each
comma, coefficients in sums only, and every threshold as its node has it.
-/

namespace LinkDiscovery.Grammar

open Text

/-- The frame that a term has in a full text. -/
def Frame.canonical (f : Frame) (k : Keyword) (before : List Char) (θ : Float) : Frame where
  before := before
  factor := if k = .add then some ⟨.ofFloat f.coefficient, [], []⟩ else none
  gap := []
  lead := []
  threshold := .ofFloat θ
  after := []

namespace Spelling

/-- The spelling of the full text of the specification with threshold `θ`. -/
def canonical : Spelling → Float → Spelling
  | leaf name gap pieces, _ => leaf name gap pieces
  | node k _ _ f left g right, θ =>
    let bounds := (top k f left g right).thresholds θ
    node k k.text.toList [] (f.canonical k [] bounds.1) (left.canonical bounds.1)
      (g.canonical k [' '] bounds.2) (right.canonical bounds.2)

/-- What stands in front of a term in the full text: a coefficient, if the term is one of a sum. -/
def factorText (k : Keyword) (x : Float) : List Char :=
  if k = .add then (Decimal.plain x).toList ++ ['*'] else []

theorem around_canonical (f : Frame) (k : Keyword) (before : List Char) (θ : Float)
    (inner : List Char) :
    (f.canonical k before θ).around inner =
      before ++ (factorText k f.coefficient ++ (inner ++ '|' :: (Decimal.plain θ).toList)) := by
  by_cases hk : k = .add <;>
    simp [Frame.canonical, Frame.around, Frame.factorChars, Factor.chars, factorText, hk,
      Figure.ofFloat]

theorem ofCompound_full (c : Compound) (θ : Float) (left right : Specification) :
    (Specification.ofCompound c θ left right).label.full.toList =
      c.keyword.text.toList ++ '(' :: (factorText c.keyword c.left.coefficient ++
        (left.termText.toList ++ ',' :: ' ' :: (factorText c.keyword c.right.coefficient ++
          (right.termText.toList ++ [')'])))) := by
  by_cases hk : c.keyword = .add <;>
    simp [Specification.ofCompound, Specification.label, Specification.summed,
      Specification.listed, factorText, hk, toString]

theorem termText_toList {s : Specification} {w : Spelling} {θ : Float}
    (hfull : s.label.full = String.ofList (w.canonical θ).chars) (hθ : s.threshold = θ) :
    s.termText.toList = (w.canonical θ).chars ++ '|' :: (Decimal.plain θ).toList := by
  simp [Specification.termText, hfull, hθ, toString]

/-- The full text is the canonical spelling. -/
theorem full_eq_canonical (w : Spelling) (θ : Float) :
    (Specification.ofOutline w.outline θ).label.full = String.ofList (w.canonical θ).chars := by
  induction w generalizing θ with
  | leaf name gap pieces => rfl
  | node k word gap f left g right ihl ihr =>
      apply String.toList_inj.mp
      rw [ofOutline_node, ofCompound_full,
        termText_toList (ihl _) (Specification.ofOutline_threshold _ _),
        termText_toList (ihr _) (Specification.ofOutline_threshold _ _)]
      simp [canonical, chars, around_canonical, top, Frame.term, Frame.coefficient]

/-- Reading the numbers of the canonical spelling gives the thresholds and coefficients anew. -/
theorem thresholds_canonical (k : Keyword) (f : Frame) (left left' : Spelling) (g : Frame)
    (right right' : Spelling) (θ : Float) {θ₁ θ₂ : Float}
    (h : (top k f left g right).thresholds θ = (θ₁, θ₂)) (before before' : List Char) :
    (top k (f.canonical k before θ₁) left' (g.canonical k before' θ₂) right').thresholds θ =
      (θ₁, θ₂) := by
  cases k with
  | and | or | xor | minus =>
      simp [Compound.thresholds, top, Frame.term, Frame.canonical, Figure.ofFloat]
  | min | max | add =>
      simpa [Compound.thresholds, top, Frame.term, Frame.canonical, Figure.ofFloat,
        Frame.coefficient] using h

/-- The canonical spelling stands for the same specification. -/
theorem ofOutline_canonical (w : Spelling) (θ : Float) :
    Specification.ofOutline (w.canonical θ).outline θ = Specification.ofOutline w.outline θ := by
  induction w generalizing θ with
  | leaf name gap pieces => rfl
  | node k word gap f left g right ihl ihr =>
      -- the thresholds in the text are those of the terms, so that taking them again changes nothing
      obtain ⟨⟨θ₁, θ₂⟩, hθ⟩ : ∃ p, (top k f left g right).thresholds θ = p := ⟨_, rfl⟩
      have hθ' := thresholds_canonical k f left (left.canonical θ₁) g right (right.canonical θ₂) θ
        hθ [] [' ']
      rw [canonical, hθ]
      simp only [ofOutline_node, hθ, hθ', ihl, ihr]
      by_cases hk : k = .add <;>
        simp [Specification.ofCompound, top, Frame.canonical, Frame.term, Frame.coefficient,
          Figure.ofFloat, hk]

/-- The expression can stand in a term without a coefficient. -/
def Bare (w : Spelling) : Prop :=
  ∀ rest, coefficient (w.chars ++ rest) = .missing

/-- All terms but those of sums can do without a coefficient. -/
def BareTerms : Spelling → Prop
  | leaf _ _ _ => True
  | node k _ _ _ left _ right =>
    (k ≠ .add → left.Bare ∧ right.Bare) ∧ left.BareTerms ∧ right.BareTerms

/-- Only the terms of sums have coefficients. -/
def CoefficientsOnlyInSums : Spelling → Prop
  | leaf _ _ _ => True
  | node k _ _ f left g right =>
    (k ≠ .add → f.factor = none ∧ g.factor = none) ∧ left.CoefficientsOnlyInSums ∧
      right.CoefficientsOnlyInSums

theorem bareTerms_of_sums {w : Spelling} (hw : w.Legible) (hsums : w.CoefficientsOnlyInSums) :
    w.BareTerms := by
  induction w with
  | leaf name gap pieces => trivial
  | node k word gap f left g right ihl ihr =>
      obtain ⟨-, ⟨hf, hl⟩, hg, hr⟩ := hw
      obtain ⟨hplain, hsl, hsr⟩ := hsums
      refine ⟨fun hk => ?_, ihl hl hsl, ihr hr hsr⟩
      exact ⟨hf.noFactor (hplain hk).1, hg.noFactor (hplain hk).2⟩

theorem keyword_no_coefficient (k : Keyword) (rest : List Char) :
    coefficient (k.text.toList ++ '(' :: rest) = .missing := by
  cases k <;> rfl

theorem bare_canonical {w : Spelling} (h : w.Bare) (θ : Float) : (w.canonical θ).Bare := by
  cases w with
  | leaf name gap pieces => exact h
  | node k word gap f left g right =>
      intro rest
      simp only [canonical, chars, List.nil_append, List.append_assoc, List.cons_append]
      exact keyword_no_coefficient k _

theorem ofLetters?_text (k : Keyword) : Keyword.ofLetters? k.text.toList = some k := by
  cases k <;> rfl

theorem legible_factor {f : Frame} {k : Keyword} (hadd : k = .add → f.coefficient.isFinite = true)
    (before : List Char) (θ : Float) :
    ∀ factor ∈ (f.canonical k before θ).factor, factor.Legible := by
  intro factor hfactor
  by_cases hk : k = .add
  · obtain rfl : ⟨.ofFloat f.coefficient, [], []⟩ = factor := by
      simpa [Frame.canonical, hk] using hfactor
    have hnil : Blanks [] := by simp [Blanks]
    exact ⟨Figure.ofFloat_legible (hadd hk), hnil, hnil⟩
  · simp [Frame.canonical, hk] at hfactor

theorem legible_frame {f : Frame} {k : Keyword} {inner before : List Char} {θ : Float}
    (hbefore : Blanks before) (hθ : θ.isFinite = true)
    (hadd : k = .add → f.coefficient.isFinite = true)
    (hbare : k ≠ .add → ∀ rest, coefficient (inner ++ rest) = .missing) :
    (f.canonical k before θ).Legible inner := by
  have hnil : Blanks [] := by simp [Blanks]
  refine ⟨hbefore, legible_factor hadd before θ, ?_, hnil, hnil, Figure.ofFloat_legible hθ, hnil⟩
  intro hnone
  exact hbare fun hk => by simp [Frame.canonical, hk] at hnone

theorem finite_coefficients {k : Keyword} {f g : Frame} {left right : Spelling} {text : String}
    (h : (top k f left g right).fault? text = none) (hk : k = .add) :
    (f.coefficient.isFinite = true ∧ ¬ f.coefficient ≤ 0) ∧
      g.coefficient.isFinite = true ∧ ¬ g.coefficient ≤ 0 :=
  (Compound.fault?_eq_none.mp h).2 hk

/-- The canonical spelling can be read if its numbers are finite and no coefficient is missed. -/
theorem legible_canonical {w : Spelling} (hw : w.Legible) (hbare : w.BareTerms)
    {text : String} (hfault : w.outline.fault? text = none) {θ : Float}
    (hθ : (Specification.ofOutline w.outline θ).FiniteBelow) : (w.canonical θ).Legible := by
  induction w generalizing text θ with
  | leaf name gap pieces => exact hw
  | node k word gap f left g right ihl ihr =>
      obtain ⟨-, ⟨-, hl⟩, -, hr⟩ := hw
      obtain ⟨hterms, hbl, hbr⟩ := hbare
      obtain ⟨hc, hfl, hfr⟩ := Outline.fault?_node.mp hfault
      obtain ⟨hθl, hθr⟩ := Specification.finiteBelow_node.mp hθ
      have hθl' := hθl _ (.root _)
      have hθr' := hθr _ (.root _)
      rw [Specification.ofOutline_threshold] at hθl' hθr'
      refine ⟨⟨ofLetters?_text k, by simp [Blanks]⟩, ⟨?_, ihl hl hbl hfl (.of_nodes hθl)⟩, ?_,
        ihr hr hbr hfr (.of_nodes hθr)⟩
      · refine legible_frame (by simp [Blanks]) hθl' (fun hk => (finite_coefficients hc hk).1.1) ?_
        exact fun hk => bare_canonical (hterms hk).1 _
      · refine legible_frame (by simp [Blanks, isSpace]) hθr'
          (fun hk => (finite_coefficients hc hk).2.1) ?_
        exact fun hk => bare_canonical (hterms hk).2 _

theorem fault?_canonical_of_below {w : Spelling} {text : String}
    (hfault : w.outline.fault? text = none) {θ : Float}
    (hθ : (Specification.ofOutline w.outline θ).FiniteBelow) (text' : String) :
    (w.canonical θ).outline.fault? text' = none := by
  induction w generalizing text text' θ with
  | leaf name gap pieces => rfl
  | node k word gap f left g right ihl ihr =>
      obtain ⟨hc, hfl, hfr⟩ := Outline.fault?_node.mp hfault
      obtain ⟨hθl, hθr⟩ := Specification.finiteBelow_node.mp hθ
      have hθl' := hθl _ (.root _)
      have hθr' := hθr _ (.root _)
      rw [Specification.ofOutline_threshold] at hθl' hθr'
      refine Outline.fault?_node.mpr ⟨?_, ihl hfl (.of_nodes hθl) _, ihr hfr (.of_nodes hθr) _⟩
      refine Compound.fault?_eq_none.mpr ⟨⟨hθl', hθr'⟩, ?_⟩
      intro hk
      obtain rfl : k = .add := hk
      simpa [Frame.canonical, Frame.term, Figure.ofFloat] using finite_coefficients hc rfl

theorem fault?_canonical {w : Spelling} {text : String} (hfault : w.outline.fault? text = none)
    {θ : Float} (hθ : ∀ t, Specification.IsNode t (Specification.ofOutline w.outline θ) →
      t.threshold.isFinite = true) (text' : String) :
    (w.canonical θ).outline.fault? text' = none :=
  fault?_canonical_of_below hfault (.of_nodes hθ) text'

end Spelling

end LinkDiscovery.Grammar

namespace LinkDiscovery

open Grammar Text

/-- The text is an expression in which only the terms of sums have coefficients. -/
def CoefficientsOnlyInSums (text : String) : Prop :=
  ∃ w : Spelling, w.Legible ∧ w.chars = trimChars text.toList ∧ w.CoefficientsOnlyInSums

namespace Specification

/-- The full text of a specification is read as its canonical spelling. -/
theorem parse_outline_full_of_below {w : Spelling} (hw : w.Legible) (hbare : w.BareTerms)
    {text : String} (hfault : w.outline.fault? text = none) {θ : Float}
    (hθ : (ofOutline w.outline θ).FiniteBelow) :
    Outline.parse (ofOutline w.outline θ).label.full = .ok (w.canonical θ).outline := by
  have hcanonical := Spelling.legible_canonical hw hbare hfault hθ
  refine parse_spelling hcanonical ?_
  rw [Spelling.full_eq_canonical, String.toList_ofList, hcanonical.trim]

theorem parse_outline_full {w : Spelling} (hw : w.Legible) (hbare : w.BareTerms) {text : String}
    (hfault : w.outline.fault? text = none) {θ : Float}
    (hθ : ∀ t, IsNode t (ofOutline w.outline θ) → t.threshold.isFinite = true) :
    Outline.parse (ofOutline w.outline θ).label.full = .ok (w.canonical θ).outline :=
  parse_outline_full_of_below hw hbare hfault (.of_nodes hθ)

/-- The full text of a specification is a faithful printing of it: read with the same threshold, it
gives the same specification. -/
theorem parse_full {text : String} {θ : Float} {s : Specification}
    (hs : parse text θ = .ok s) (hθ : ∀ t, IsNode t s → t.threshold.isFinite = true)
    (hsums : CoefficientsOnlyInSums text) : parse s.label.full θ = .ok s := by
  obtain ⟨o, ho, hfault, rfl⟩ := parse_eq_ok.mp hs
  obtain ⟨w, hw, htext, hsums⟩ := hsums
  obtain rfl : w.outline = o := Except.ok.inj ((parse_spelling hw htext.symm).symm.trans ho)
  have hbare := Spelling.bareTerms_of_sums hw hsums
  exact parse_eq_ok.mpr ⟨_, parse_outline_full hw hbare hfault hθ,
    Spelling.fault?_canonical hfault hθ _, (Spelling.ofOutline_canonical w θ).symm⟩

theorem parse_full_sample :
    let w := Spelling.sample .add ['A', 'd', 'd']
    parse (String.ofList w.chars) 0.75 = .ok (w.tree 0.75) ∧
      (∀ t, IsNode t (w.tree 0.75) → t.threshold.isFinite = true) ∧
        CoefficientsOnlyInSums (String.ofList w.chars) ∧
          parse (w.tree 0.75).label.full 0.75 = .ok (w.tree 0.75) := by
  intro w
  have hw : w.WrittenOut := Spelling.sample_writtenOut rfl
  have hs := (hw.parse_chars 0.75).2
  have hθ : ∀ t, IsNode t (ofOutline w.outline 0.75) → t.threshold.isFinite = true := by
    exact forall_nodes.mpr ⟨rfl, forall_nodes_leaf.mpr rfl, forall_nodes_leaf.mpr rfl⟩
  have hsums : CoefficientsOnlyInSums (String.ofList w.chars) :=
    ⟨w, hw.legible, by rw [String.toList_ofList, hw.legible.trim], fun hk => absurd rfl hk, trivial,
      trivial⟩
  rw [← Spelling.ofOutline_eq_tree]
  exact ⟨hs, hθ, hsums, parse_full hs hθ hsums⟩

end Specification

end LinkDiscovery
