import LinkDiscovery.Proofs.Grammar.CutShort
import LinkDiscovery.Proofs.Grammar.Levels
import LinkDiscovery.Proofs.Measure.Resolution
/-!
Leaves. A text is read alone as a call, and it is read as an expression that is a call. The two readings
differ on calls only whose measure has the name of a keyword: an expression is tried as a compound first,
and a number that is cut short at the place of its first coefficient ends the reading.
-/

namespace LinkDiscovery

open Grammar Text Text.Scanner Decimal

namespace Expression

/-- Blanks aside, the text begins with a keyword, a parenthesis and a number that is cut short. -/
def BeginsCutShort (text : String) : Prop :=
  ∃ word gap blanks rest, trimChars text.toList = word ++ (gap ++ '(' :: (blanks ++ rest)) ∧
    (Keyword.ofLetters? word).isSome = true ∧ Blanks gap ∧ Blanks blanks ∧ CutShort rest

variable {text : String} {call : Call}

theorem BeginsCutShort.parse (h : BeginsCutShort text) :
    Outline.parse text = .error (.malformed (trim text)) := by
  obtain ⟨word, gap, blanks, rest, htext, hword, hgap, hblanks, hcut⟩ := h
  obtain ⟨k, hk⟩ := Option.isSome_iff_exists.mp hword
  obtain ⟨c, letters, rfl⟩ := List.exists_cons_of_ne_nil (ofLetters?_chars hk).1
  have hbroken (depth : ℕ) : outline (depth + 1) (trimChars text.toList) = .broken := by
    rw [htext]
    exact orElse_broken (compound_broken hk hgap hblanks (coefficient_eq_broken.mpr hcut) _)
  have hwhole : (outline (trimChars text.toList).length).whole (trimChars text.toList) = none := by
    obtain ⟨depth, hdepth⟩ : ∃ depth, (trimChars text.toList).length = depth + 1 := by
      rw [htext]
      exact ⟨_, List.length_cons⟩
    rw [hdepth, whole, hbroken]
  simp only [Outline.parse, hwhole, trim]

theorem call_read_eq_ok :
    Call.read text = .ok call ↔ Grammar.call (trimChars text.toList) = .found call [] := by
  rw [← whole_eq_some, Call.read]
  cases Grammar.call.whole (trimChars text.toList) <;> simp

/-- The leaves among the outlines that are read. -/
theorem parse_leaf_iff {s : String} :
    Outline.parse text = .ok (.leaf s call) ↔
      s = trim text ∧ Call.read text = .ok call ∧ ¬ BeginsCutShort text := by
  constructor
  · intro h
    refine ⟨Outline.text_of_parse_leaf h, ?_, fun hcut => nomatch hcut.parse.symm.trans h⟩
    obtain ⟨w, hw, ho, htext⟩ := exists_spelling h
    cases w with
    | leaf name gap pieces =>
        have hfound := call_found hw []
        rw [List.append_nil] at hfound
        rw [call_read_eq_ok, htext, hfound, ← (Outline.leaf.inj ho).2]
    | node => cases ho
  · rintro ⟨rfl, hread, hcut⟩
    obtain ⟨name, gap, pieces, htext, rfl, hw⟩ := call_eq_found (call_read_eq_ok.mp hread)
    rw [List.append_nil] at htext
    rcases hw with hw | ⟨k, blanks, left, hk, hgap, hblanks, hleft, hbroken⟩
    · have hparse := parse_spelling (w := .leaf name gap pieces) hw htext
      rwa [Spelling.outline, ← htext] at hparse
    · refine absurd ⟨name, gap, blanks, left, ?_, ?_, hgap, hblanks, ?_⟩ hcut
      · rw [htext, Spelling.chars, hleft]
      · rw [hk, Option.isSome_some]
      · exact coefficient_eq_broken.mp hbroken

end Expression

/-- The leaves among the specifications that are read. -/
theorem Specification.parse_leaf {text : String} {θ : Float} {s : Specification} :
    (parse text θ = .ok s ∧ s.isLeaf = true) ↔
      ∃ call, Outline.parse text = .ok (.leaf (trim text) call) ∧ s = ofCall (trim text) call θ := by
  constructor
  · rintro ⟨hs, hleaf⟩
    obtain ⟨o, ho, -, rfl⟩ := parse_eq_ok.mp hs
    cases o with
    | leaf spelling call =>
        obtain rfl := Outline.text_of_parse_leaf ho
        exact ⟨call, ho, rfl⟩
    | node c left right => cases hleaf
  · rintro ⟨call, ho, rfl⟩
    exact ⟨parse_eq_ok.mpr ⟨_, ho, rfl, rfl⟩, rfl⟩

theorem Comparison.read_eq_ok {text sv tv : String} {c : Comparison} :
    Comparison.read text sv tv = .ok c ↔
      ∃ call first second, Call.read text = .ok call ∧ call.arguments = [first, second] ∧
        c = ⟨call.measure, Path.property first sv, Path.property second tv⟩ := by
  unfold Comparison.read
  cases Call.read text with
  | error fault => simp
  | ok call =>
      obtain ⟨measure, arguments⟩ := call
      rcases arguments with _ | ⟨first, _ | ⟨second, _ | ⟨third, others⟩⟩⟩
      · simp [ofCall]
      · simp [ofCall]
      · constructor
        · intro h
          exact ⟨_, first, second, rfl, rfl, (Except.ok.inj h).symm⟩
        · rintro ⟨_, _, _, ⟨⟩, ⟨⟩, rfl⟩
          rfl
      · simp [ofCall]

/-- The comparisons among the scorers of expressions. -/
theorem Registry.compile_comparison {r : Registry} {text sv tv p q : String} {m : Measure} :
    r.compile text sv tv = .ok (.comparison m p q) ↔
      ∃ call first second, Outline.parse text = .ok (.leaf (trim text) call) ∧
        call.arguments = [first, second] ∧ r.measure? call.measure = some m ∧
          p = Path.property first sv ∧ q = Path.property second tv := by
  unfold compile
  cases ho : Outline.parse text with
  | error fault => simp
  | ok o =>
      cases o with
      | leaf spelling call =>
          obtain rfl := Outline.text_of_parse_leaf ho
          simp only [resolve_leaf, Scorer.comparison.injEq, Except.ok.injEq, Outline.leaf.injEq,
            true_and]
          constructor
          · rintro ⟨first, second, m', harguments, hm, rfl, rfl, rfl⟩
            exact ⟨call, first, second, rfl, harguments, hm, rfl, rfl⟩
          · rintro ⟨_, first, second, rfl, harguments, hm, rfl, rfl⟩
            exact ⟨first, second, m, harguments, hm, rfl, rfl, rfl⟩
      | node c left right =>
          simp [resolve_node]

namespace Expression

/-- A text is read as an expression that is a call if and only if it is read alone as this call and
does not begin like a compound that is cut short; a text that does so is malformed. The texts that
specifications and filters take for leaves are therefore the calls that do not begin so. -/
theorem read_call_iff (text : String) :
    (∀ call, read text = .ok (.call call) ↔ Call.read text = .ok call ∧ ¬ BeginsCutShort text) ∧
      (BeginsCutShort text → read text = .error (.malformed (trim text))) ∧
      (∀ θ s, (Specification.parse text θ = .ok s ∧ s.isLeaf = true) ↔
        ∃ call, (Call.read text = .ok call ∧ ¬ BeginsCutShort text) ∧
          s = Specification.ofCall (trim text) call θ) ∧
      ∀ (r : Registry) (sv tv : String) (m : Measure) (p q : String),
        r.compile text sv tv = .ok (.comparison m p q) ↔
          ¬ BeginsCutShort text ∧ ∃ c, Comparison.read text sv tv = .ok c ∧
            r.measure? c.measure = some m ∧ p = c.sourceProperty ∧ q = c.targetProperty := by
  have hleaf (call : Call) : Outline.parse text = .ok (.leaf (trim text) call) ↔
      Call.read text = .ok call ∧ ¬ BeginsCutShort text :=
    parse_leaf_iff.trans (and_iff_right rfl)
  refine ⟨fun call => ?_, fun hcut => read_error hcut.parse, fun θ s => ?_, fun r sv tv m p q => ?_⟩
  · simp only [read_eq_call, parse_leaf_iff, exists_eq_left]
  · simp only [Specification.parse_leaf, hleaf]
  · simp only [Registry.compile_comparison, hleaf, Comparison.read_eq_ok]
    constructor
    · rintro ⟨call, first, second, ⟨hread, hcut⟩, harguments, hm, rfl, rfl⟩
      exact ⟨hcut, _, ⟨call, first, second, hread, harguments, rfl⟩, hm, rfl, rfl⟩
    · rintro ⟨hcut, _, ⟨call, first, second, hread, harguments, rfl⟩, hm, rfl, rfl⟩
      exact ⟨call, first, second, ⟨hread, hcut⟩, harguments, hm, rfl, rfl⟩

/-- A measure with the name of a keyword, and a first property that begins with a number cut short. -/
theorem read_call_iff_sample :
    BeginsCutShort " Max( 2.5e-, y)" ∧
      read " Max( 2.5e-, y)" = .error (.malformed "Max( 2.5e-, y)") := by
  have hcut : BeginsCutShort " Max( 2.5e-, y)" := by
    refine ⟨['M', 'a', 'x'], [], [' '], "2.5e-, y)".toList, rfl, rfl, ?_, ?_, ?_⟩
    · simp [Blanks]
    · simp [Blanks, isSpace]
    · exact coefficient_eq_broken.mp rfl
  exact ⟨hcut, (read_call_iff _).2.1 hcut⟩

/-- A call that is read alone, and as an expression is malformed. -/
theorem call_read_malformed :
    Call.read "and(2e,y)" = .ok { measure := "and", arguments := ["2e", "y"] } ∧
      read "and(2e,y)" = .error (.malformed "and(2e,y)") :=
  ⟨rfl, rfl⟩

end Expression

end LinkDiscovery
