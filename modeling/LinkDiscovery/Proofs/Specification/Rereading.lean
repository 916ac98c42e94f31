import LinkDiscovery.Proofs.Measure.Names
import LinkDiscovery.Proofs.Specification.Bars
/-!
Which full texts can be read again. The full text of a specification leaves out the coefficients that
only sums have a use for, and it prints every threshold below the root. So it is read again unless
a threshold is infinite, or the name of a measure begins like a number that is cut short and has lost
the coefficient that stood in front of it.
-/

namespace LinkDiscovery.Grammar

open Text Text.Scanner

variable {rest : List Char}

/-! Terms that stop the reading of a text. -/

/-- A term is broken if a coefficient is cut short in front of its expression, or if the expression
itself is broken. -/
theorem term_broken {inner : Scanner Outline} {f : Frame} {text : List Char} (hbefore : Blanks f.before)
    (hfactor : ∀ k ∈ f.factor, k.Legible) (hdark : ∀ rest, StartsDark (text ++ rest))
    (h : (f.factor = none ∧ ∀ rest, coefficient (text ++ rest) = .broken) ∨
      ((f.factor = none → ∀ rest, coefficient (text ++ rest) = .missing) ∧
        ∀ rest, inner (text ++ rest) = .broken)) (rest : List Char) :
    term inner (f.around text ++ rest) = .broken := by
  cases hk : f.factor with
  | none =>
      simp only [Frame.around, Frame.factorChars, hk, Option.map_none, Option.getD_none,
        List.nil_append, List.append_assoc, List.cons_append]
      rcases h with ⟨-, hcut⟩ | ⟨hmissing, hinner⟩
      · exact term_cut hbefore (hcut _) inner
      · have hnil : Blanks [] := by simp [Blanks]
        refine (bind_found (spaces_found hbefore (hdark _))).trans ?_
        refine (bind_found (optional_eq_found.mpr (.inr ⟨rfl, rfl, hmissing hk _⟩))).trans ?_
        refine (bind_found (spaces_found hnil (hdark _))).trans ?_
        exact bind_broken (spelled_broken (hinner _))
  | some k =>
      obtain ⟨-, hinner⟩ := h.resolve_left (by simp [hk])
      have hkl := hfactor k hk
      simp only [Frame.around, Frame.factorChars, Factor.chars, hk, Option.map_some,
        Option.getD_some, List.append_assoc, List.cons_append]
      have hdigits (rest) := hkl.1.startsDark_padded hkl.2.1 (c := '*') rfl rest
      refine (bind_found (spaces_found hbefore (hdigits _))).trans ?_
      refine (bind_found (optional_eq_found.mpr (.inl ⟨_, rfl, coefficient_found hkl _⟩))).trans ?_
      refine (bind_found (spaces_found hkl.2.2 (hdark _))).trans ?_
      exact bind_broken (spelled_broken (hinner _))

namespace Spelling

/-- In front of a call stands no coefficient, or one that is cut short. -/
theorem bare_or_broken_leaf {name gap : List Char} {pieces : List (List Char)}
    (h : LegibleLeaf name gap pieces) : (leaf name gap pieces).Bare ∨
      ∀ rest, coefficient ((leaf name gap pieces).chars ++ rest) = .broken := by
  have hchars (rest : List Char) : (leaf name gap pieces).chars ++ rest =
      (name ++ gap) ++ '(' :: (joined pieces ++ ')' :: rest) := by
    simp [chars]
  obtain ⟨outcome, hhalt⟩ := coefficient_halts (name ++ gap)
  have hhalt (tail : List Char) := hhalt '(' tail rfl
  simp only [Bare, hchars, hhalt]
  cases outcome with
  | missing => exact .inl fun _ => rfl
  | broken => exact .inr fun _ => rfl
  | found v left =>
      -- the star of a coefficient would have to stand in the name or behind it
      obtain ⟨figure, blanks, -, -, -, htext⟩ := coefficient_eq_found (hhalt [])
      have hstar : '*' ∈ name ++ gap ++ ['('] := by
        rw [htext]
        simp
      simp only [List.mem_append, List.mem_singleton, Char.reduceEq, or_false] at hstar
      rcases hstar with hstar | hstar
      · exact absurd (h.nameChars _ hstar) (by decide)
      · exact absurd (h.blanks _ hstar) (by decide)

theorem bare_or_broken {w : Spelling} (hw : w.Legible) (θ : Float) :
    w.Bare ∨ ∀ rest, coefficient ((w.canonical θ).chars ++ rest) = .broken := by
  cases w with
  | leaf name gap pieces => exact bare_or_broken_leaf hw
  | node k word gap f left g right => exact .inl (bare_node hw.1.1)

theorem startsDark_canonical {w : Spelling} (hw : w.Legible) (θ : Float) (rest : List Char) :
    StartsDark ((w.canonical θ).chars ++ rest) := by
  cases w with
  | leaf name gap pieces => exact hw.startsDark rest
  | node k word gap f left g right =>
      simp only [canonical, chars, List.append_assoc]
      cases k <;> exact startsDark_cons rfl

@[simp]
theorem height_canonical (w : Spelling) (θ : Float) : (w.canonical θ).height = w.height := by
  induction w generalizing θ with
  | leaf name gap pieces => rfl
  | node k word gap f left g right ihl ihr => simp [canonical, height, ihl, ihr]

theorem height_le_canonical (w : Spelling) (θ : Float) :
    w.height ≤ (w.canonical θ).chars.length :=
  (height_canonical w θ).symm.trans_le (height_le _)

/-- What a term asks of its expression in order to be read again. -/
def BareBelow (k : Keyword) (w : Spelling) : Prop :=
  (k ≠ .add → w.Bare) ∧ w.BareTerms

theorem bareTerms_node {k : Keyword} {word gap : List Char} {f g : Frame} {left right : Spelling} :
    (node k word gap f left g right).BareTerms ↔ left.BareBelow k ∧ right.BareBelow k := by
  simp only [BareTerms, BareBelow]
  tauto

/-- A term whose expression cannot do without the coefficient that it has lost, or that holds such
a term, stops the reading. -/
theorem term_canonical_broken {w : Spelling} (hw : w.Legible) {k : Keyword} (hbare : ¬ w.BareBelow k)
    {f : Frame} (hfinite : k = .add → f.coefficient.isFinite = true) {before : List Char}
    (hbefore : Blanks before) {θ : Float} {inner : Scanner Outline}
    (hinner : ¬ w.BareTerms → ∀ rest, inner ((w.canonical θ).chars ++ rest) = .broken)
    (rest : List Char) :
    term inner ((f.canonical k before θ).around (w.canonical θ).chars ++ rest) = .broken := by
  refine term_broken hbefore (legible_factor hfinite before θ) (startsDark_canonical hw θ) ?_ rest
  by_cases hcut : k ≠ .add ∧ ¬ w.Bare
  · obtain ⟨hk, hcut⟩ := hcut
    exact .inl ⟨by simp [Frame.canonical, hk], (bare_or_broken hw θ).resolve_left hcut⟩
  · have hterms : ¬ w.BareTerms := fun hterms =>
      hbare ⟨fun hk => by_contra fun hw => hcut ⟨hk, hw⟩, hterms⟩
    refine .inr ⟨fun hnone => ?_, hinner hterms⟩
    have hk : k ≠ .add := by
      rintro rfl
      simp [Frame.canonical] at hnone
    have hbare : w.Bare := by_contra fun hw => hcut ⟨hk, hw⟩
    exact bare_canonical hbare θ

/-- A full text in which a coefficient is missed cannot be read, whatever follows it. -/
theorem outline_canonical_broken {w : Spelling} (hw : w.Legible) (hbare : ¬ w.BareTerms)
    {text : String} (hfault : w.outline.fault? text = none) {θ : Float}
    (hθ : (Specification.ofOutline w.outline θ).FiniteBelow) {depth : ℕ} (hd : w.height ≤ depth)
    (rest : List Char) : Grammar.outline depth ((w.canonical θ).chars ++ rest) = .broken := by
  induction w generalizing text θ depth rest with
  | leaf name gap pieces => exact absurd trivial hbare
  | node k word gap f left g right ihl ihr =>
      obtain ⟨-, ⟨-, hl⟩, -, hr⟩ := hw
      obtain ⟨hc, hfl, hfr⟩ := Outline.fault?_node.mp hfault
      obtain ⟨hθl, hθr⟩ := Specification.finiteBelow_node.mp hθ
      cases depth with
      | zero => simp [height] at hd
      | succ depth =>
          obtain ⟨hdl, hdr⟩ : left.height ≤ depth ∧ right.height ≤ depth := by
            simpa [height, Nat.max_le] using hd
          have hnil : Blanks [] := by simp [Blanks]
          rw [Grammar.outline]
          refine orElse_broken ?_
          simp only [canonical, chars, List.append_assoc, List.cons_append, List.nil_append]
          refine (bind_found (keyword_open (ofLetters?_text k) hnil _)).trans ?_
          refine (bind_found (spaces_found hnil (startsDark_cons rfl))).trans ?_
          refine (bind_found (token_cons '(')).trans ?_
          by_cases hleft : left.BareBelow k
          · -- the left term is read, and the right one is not
            have hright : ¬ right.BareBelow k :=
              fun hright => hbare (bareTerms_node.mpr ⟨hleft, hright⟩)
            have hfinite := hθl _ (.root _)
            rw [Specification.ofOutline_threshold] at hfinite
            have hframe := legible_frame hnil hfinite (fun hk => (finite_coefficients hc hk).1.1)
              fun hk => bare_canonical (hleft.1 hk) ((top k f left g right).thresholds θ).1
            have hlegible := legible_canonical hl hleft.2 hfl (.of_nodes hθl)
            have hdepth : (left.canonical ((top k f left g right).thresholds θ).1).height ≤ depth := by
              rwa [height_canonical]
            refine (bind_found (term_found (c := ',') hframe hlegible.startsDark
              (outline_found hlegible hdepth) rfl rfl _)).trans ?_
            refine (bind_found (token_cons ',')).trans ?_
            have hblank : Blanks [' '] := by simp [Blanks, isSpace]
            exact bind_broken (term_canonical_broken hr hright
              (fun hk => (finite_coefficients hc hk).2.1) hblank
              (fun hterms => ihr hr hterms hfr (.of_nodes hθr) hdr) _)
          · exact bind_broken (term_canonical_broken hl hleft
              (fun hk => (finite_coefficients hc hk).1.1) hnil
              (fun hterms => ihl hl hterms hfl (.of_nodes hθl) hdl) _)

end Spelling

end LinkDiscovery.Grammar

namespace LinkDiscovery.Specification

open Grammar Text Text.Scanner

variable {w : Spelling} {θ : Float}

/-- Whether an expression can do without a coefficient shows at the beginning of its full text. -/
theorem bare_iff (hw : w.Legible) (θ : Float) :
    w.Bare ↔ coefficient (ofOutline w.outline θ).label.full.toList ≠ .broken := by
  rw [Spelling.full_eq_canonical, String.toList_ofList]
  constructor
  · intro h
    have hmissing := Spelling.bare_canonical h θ []
    rw [List.append_nil] at hmissing
    simp [hmissing]
  · intro h
    refine (Spelling.bare_or_broken hw θ).resolve_right fun hbroken => h ?_
    simpa using hbroken []

/-- No number is cut short at the beginning of an expression that stands in a full text without a
coefficient. -/
def NoCutNumbers (s : Specification) : Prop :=
  ∀ t, IsNode t s → t.label.weights = none → ∀ c ∈ t.children,
    coefficient c.label.full.toList ≠ .broken

theorem noCutNumbers_node {c : Compound} {left right : Outline} :
    (ofOutline (.node c left right) θ).NoCutNumbers ↔
      (c.keyword ≠ .add →
        coefficient (ofOutline left (c.thresholds θ).1).label.full.toList ≠ .broken ∧
          coefficient (ofOutline right (c.thresholds θ).2).label.full.toList ≠ .broken) ∧
        (ofOutline left (c.thresholds θ).1).NoCutNumbers ∧
          (ofOutline right (c.thresholds θ).2).NoCutNumbers := by
  refine forall_nodes.trans (and_congr_left' ?_)
  by_cases hk : c.keyword = .add <;> simp [ofOutline, ofCompound, label, children, hk]

theorem bareTerms_iff (hw : w.Legible) : w.BareTerms ↔ (ofOutline w.outline θ).NoCutNumbers := by
  induction w generalizing θ with
  | leaf name gap pieces =>
      refine iff_of_true trivial (forall_nodes_leaf.mpr fun _ c hc => ?_)
      cases hc
  | node k word gap f left g right ihl ihr =>
      obtain ⟨-, ⟨-, hl⟩, -, hr⟩ := hw
      rw [Spelling.outline, noCutNumbers_node, ← ihl hl, ← ihr hr, ← bare_iff hl, ← bare_iff hr]
      exact Iff.rfl

/-- What it takes to read the full text of a specification again. -/
structure Rereadable (s : Specification) : Prop where
  finite : s.FiniteBelow
  uncut : s.NoCutNumbers

theorem Rereadable.read_full (h : (ofOutline w.outline θ).Rereadable) (hw : w.Legible)
    {text : String} (hfault : w.outline.fault? text = none) :
    Outline.read (ofOutline w.outline θ).label.full = .ok (w.canonical θ).outline := by
  have hbare := (bareTerms_iff hw).mpr h.uncut
  exact Outline.read_eq_ok.mpr ⟨parse_outline_full_of_below hw hbare hfault h.finite,
    Spelling.fault?_canonical_of_below hfault h.finite _⟩

theorem read_full_iff (hw : w.Legible) {text : String} (hfault : w.outline.fault? text = none) :
    (∃ o, Outline.read (ofOutline w.outline θ).label.full = .ok o) ↔
      (ofOutline w.outline θ).Rereadable := by
  constructor
  · rintro ⟨o, hread⟩
    refine ⟨finite_of_read_full hread, (bareTerms_iff hw).mp (by_contra fun hbare => ?_)⟩
    cases w with
    | leaf name gap pieces => exact hbare trivial
    | node k word gap f left g right =>
        have hfound := outline_of_parse (Outline.read_eq_ok.mp hread).1
        rw [Spelling.full_eq_canonical, String.toList_ofList, Spelling.trim_canonical] at hfound
        have hbroken := Spelling.outline_canonical_broken hw hbare hfault (finite_of_read_full hread)
          (Spelling.height_le_canonical _ θ) []
        rw [List.append_nil, hfound] at hbroken
        cases hbroken
  · exact fun hagain => ⟨_, hagain.read_full hw hfault⟩

/-- The full text of a node can be read if and only if nothing in it is in the way. -/
theorem read_node_iff {w : Spelling} (hw : w.Legible) {text : String}
    (hfault : w.outline.fault? text = none) {θ : Float} :
    ∀ t, IsNode t (ofOutline w.outline θ) →
      ((∃ o, Outline.read t.label.full = .ok o) ↔ t.Rereadable) := by
  induction w generalizing text θ with
  | leaf name gap pieces =>
      have hroot := read_full_iff (θ := θ) hw hfault
      exact forall_nodes_leaf.mpr hroot
  | node k word gap f left g right ihl ihr =>
      obtain ⟨-, ⟨-, hl⟩, -, hr⟩ := id hw
      obtain ⟨-, hfl, hfr⟩ := Outline.fault?_node.mp hfault
      have hroot := read_full_iff (θ := θ) hw hfault
      exact forall_nodes.mpr ⟨hroot, ihl hl hfl, ihr hr hfr⟩

end LinkDiscovery.Specification
