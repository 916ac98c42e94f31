import LinkDiscovery.Expression.Table
import LinkDiscovery.Proofs.Grammar.Whole
import LinkDiscovery.Proofs.Specification.Nodes
/-!
Reading level by level. The text of a term is read alone as the expression that was read in its place,
so an expression whose outermost level follows the grammar follows it on all levels, and one pass over
a text reads what is read by taking up the text of each term in turn.
-/

namespace LinkDiscovery

open Grammar Text

theorem Text.trimChars_trimChars (text : List Char) : trimChars (trimChars text) = trimChars text := by
  have hfront : (trimChars text).dropWhile isBlank = trimChars text := by
    rw [List.dropWhile_eq_self_iff]
    intro hlength
    have hpre : trimChars text <+: text.dropWhile isBlank :=
      List.rdropWhile_prefix isBlank _
    rw [hpre.getElem hlength]
    exact List.dropWhile_get_zero_not isBlank text _
  rw [trimChars, hfront]
  exact List.rdropWhile_idempotent isBlank _

theorem Text.toList_trim (text : String) : (trim text).toList = trimChars text.toList :=
  String.toList_ofList

theorem Text.trim_trim (text : String) : trim (trim text) = trim text := by
  rw [trim, toList_trim, trimChars_trimChars, trim]

theorem Text.length_trimChars_le (text : List Char) : (trimChars text).length ≤ text.length := by
  have hback : (trimChars text).length ≤ (text.dropWhile isBlank).length :=
    (List.rdropWhile_prefix isBlank _).length_le
  exact hback.trans (List.length_dropWhile_le isBlank text)

theorem Text.length_trim_le (text : String) : (trim text).length ≤ text.length := by
  rw [← String.length_toList, ← String.length_toList, toList_trim]
  exact length_trimChars_le text.toList

namespace Outline

variable {text : String}

theorem parse_trim (text : String) : Outline.parse (trim text) = Outline.parse text := by
  simp only [Outline.parse, toList_trim, trimChars_trimChars]

theorem text_of_parse_leaf {s : String} {call : Call} (h : Outline.parse text = .ok (.leaf s call)) :
    s = trim text := by
  obtain ⟨w, -, ho, htext⟩ := exists_spelling h
  cases w with
  | leaf name gap pieces => rw [← (Outline.leaf.inj ho).1, trim, htext]
  | node => cases ho

/-- The text of a term, read alone, is the expression that was read in its place. -/
theorem parse_terms {c : Compound} {left right : Outline}
    (h : Outline.parse text = .ok (.node c left right)) :
    (Outline.parse c.left.text = .ok left ∧ trim c.left.text = c.left.text ∧
        c.left.text.length < text.length) ∧
      Outline.parse c.right.text = .ok right ∧ trim c.right.text = c.right.text ∧
        c.right.text.length < text.length := by
  obtain ⟨w, hw, ho, htext⟩ := exists_spelling h
  cases w with
  | leaf => cases ho
  | node k word gap f l g r =>
      obtain ⟨rfl, rfl, rfl⟩ := Outline.node.inj ho
      obtain ⟨-, ⟨-, hl⟩, -, hr⟩ := hw
      have hterm {v : Spelling} (hv : v.Legible)
          (hlength : v.chars.length < (Spelling.node k word gap f l g r).chars.length) :
          Outline.parse (String.ofList v.chars) = .ok v.outline ∧
            trim (String.ofList v.chars) = String.ofList v.chars ∧
            (String.ofList v.chars).length < text.length := by
        have htrim : trimChars (String.ofList v.chars).toList = v.chars := by
          rw [String.toList_ofList, hv.trim]
        refine ⟨parse_spelling hv htrim, by rw [trim, htrim], ?_⟩
        have hshorter := length_trimChars_le text.toList
        rw [htext, String.length_toList] at hshorter
        rw [String.length_ofList]
        omega
      constructor
      · refine hterm hl ?_
        simp only [Spelling.chars, Frame.around, List.length_append, List.length_cons]
        omega
      · refine hterm hr ?_
        simp only [Spelling.chars, Frame.around, List.length_append, List.length_cons]
        omega

end Outline

namespace Expression

variable {text : String} {α β : Type}

/-- The outcome of reading a text that does not follow the grammar. -/
def Malformed (outcome : Except Fault α) : Prop :=
  ∃ text, outcome = .error (.malformed text)

/-- A text stands as a term in the expression that is read from another text. -/
def IsTerm (term text : String) : Prop :=
  ∃ c, read text = .ok (.compound c) ∧ (term = c.left.text ∨ term = c.right.text)

theorem malformed_ok (a : α) : ¬ Malformed (.ok a : Except Fault α) :=
  fun ⟨_, h⟩ => nomatch h

theorem malformed_map (f : α → β) (outcome : Except Fault α) :
    Malformed (outcome.map f) ↔ Malformed outcome := by
  cases outcome <;> simp [Malformed, Except.map]

/-- What is wrong with the numbers of a text that follows the grammar is no fault of the grammar. -/
theorem malformed_compound {c : Compound} {fault : Fault} (h : c.fault? text = some fault) :
    ¬ Malformed (.error fault : Except Fault α) := by
  rintro ⟨text', hfault⟩
  obtain rfl := Except.error.inj hfault
  unfold Compound.fault? at h
  split at h
  · cases h
  · split at h
    · obtain ⟨v, -, hv⟩ := Option.map_eq_some_iff.mp h
      cases hv
    · cases h

theorem malformed_outline {o : Outline} {fault : Fault} (h : o.fault? text = some fault) :
    ¬ Malformed (.error fault : Except Fault α) := by
  induction o generalizing text with
  | leaf s call => cases h
  | node c left right ihl ihr =>
      rcases Option.or_eq_some_iff.mp h with h | ⟨-, h⟩
      · exact malformed_compound h
      · rcases Option.or_eq_some_iff.mp h with h | ⟨-, h⟩
        · exact ihl h
        · exact ihr h

theorem read_error {fault : Fault} (h : Outline.parse text = .error fault) :
    read text = .error fault := by
  simp [read, h, bind, Except.bind]

theorem read_leaf {s : String} {call : Call} (h : Outline.parse text = .ok (.leaf s call)) :
    read text = .ok (.call call) := by
  simp [read, h, Outline.top, bind, Except.bind, pure, Except.pure]

theorem read_node {c : Compound} {left right : Outline}
    (h : Outline.parse text = .ok (.node c left right)) :
    read text = match c.fault? (trim text) with
      | some fault => .error fault
      | none => .ok (.compound c) := by
  simp only [read, h, Outline.top, bind, Except.bind, pure, Except.pure]
  cases c.fault? (trim text) <;> rfl

/-- A text is read as a call if and only if the call is all that it holds. -/
theorem read_eq_call {call : Call} :
    read text = .ok (.call call) ↔ ∃ spelling, Outline.parse text = .ok (.leaf spelling call) := by
  constructor
  · intro h
    cases ho : Outline.parse text with
    | error fault => cases (read_error ho).symm.trans h
    | ok o =>
        cases o with
        | leaf spelling call' =>
            obtain rfl := Expression.call.inj (Except.ok.inj ((read_leaf ho).symm.trans h))
            exact ⟨spelling, rfl⟩
        | node c left right =>
            rw [read_node ho] at h
            split at h <;> cases h
  · rintro ⟨spelling, ho⟩
    exact read_leaf ho

theorem read_eq_error {fault : Fault} :
    read text = .error fault ↔ Outline.parse text = .error fault ∨
      ∃ c left right, Outline.parse text = .ok (.node c left right) ∧
        c.fault? (trim text) = some fault := by
  cases ho : Outline.parse text with
  | error fault' => simp [read_error ho]
  | ok o =>
      cases o with
      | leaf s call => simp [read_leaf ho]
      | node c left right =>
          rw [read_node ho]
          cases hc : c.fault? (trim text) <;> simp [hc]

theorem read_eq_compound {c : Compound} :
    read text = .ok (.compound c) ↔ ∃ left right, Outline.parse text = .ok (.node c left right) ∧
      c.fault? (trim text) = none := by
  constructor
  · intro h
    cases ho : Outline.parse text with
    | error fault => cases (read_error ho).symm.trans h
    | ok o =>
        cases o with
        | leaf s call => cases (read_leaf ho).symm.trans h
        | node c' left right =>
            have h := (read_node ho).symm.trans h
            split at h
            · cases h
            · cases h
              exact ⟨left, right, rfl, ‹_›⟩
  · rintro ⟨left, right, ho, hc⟩
    rw [read_node ho, hc]

theorem malformed_read (text : String) : Malformed (read text) ↔ Malformed (Outline.parse text) := by
  cases ho : Outline.parse text with
  | error fault =>
      rw [read_error ho]
      simp [Malformed]
  | ok o =>
      refine iff_of_false ?_ (malformed_ok o)
      cases o with
      | leaf s call =>
          rw [read_leaf ho]
          exact malformed_ok _
      | node c left right =>
          rw [read_node ho]
          split
          · rename_i hfault
            exact malformed_compound hfault
          · exact malformed_ok _

theorem malformed_outline_read (text : String) :
    Malformed (Outline.read text) ↔ Malformed (Outline.parse text) := by
  cases ho : Outline.parse text with
  | error fault => simp [Outline.read, ho, bind, Except.bind]
  | ok o =>
      refine iff_of_false ?_ (malformed_ok o)
      simp only [Outline.read, ho, bind, Except.bind]
      split
      · rename_i hfault
        exact malformed_outline hfault
      · exact malformed_ok _

/-- A term follows the grammar when it is read alone. -/
theorem IsTerm.not_malformed {term : String} (h : IsTerm term text) : ¬ Malformed (read term) := by
  obtain ⟨c, hread, hterm⟩ := h
  obtain ⟨left, right, ho, -⟩ := read_eq_compound.mp hread
  obtain ⟨⟨hl, -⟩, hr, -⟩ := Outline.parse_terms ho
  rw [malformed_read]
  rcases hterm with rfl | rfl
  · rw [hl]
    exact malformed_ok left
  · rw [hr]
    exact malformed_ok right

end Expression

/-- One pass reads what is read level by level, faults included. -/
theorem Outline.readWithin_read {text : String} {depth : ℕ} (h : text.length < depth) :
    Outline.readWithin Expression.read depth text = Outline.read text := by
  induction depth generalizing text with
  | zero => omega
  | succ depth ih =>
      simp only [readWithin, read]
      cases ho : Outline.parse text with
      | error fault =>
          rw [Expression.read_error ((parse_trim text).trans ho)]
          rfl
      | ok o =>
          cases o with
          | leaf s call =>
              rw [Expression.read_leaf ((parse_trim text).trans ho), text_of_parse_leaf ho]
              rfl
          | node c left right =>
              rw [Expression.read_node ((parse_trim text).trans ho), trim_trim]
              obtain ⟨⟨hl, htrim, hlength⟩, hr, htrim', hlength'⟩ := parse_terms ho
              simp only [bind, Except.bind, Outline.fault?]
              cases c.fault? (trim text) with
              | some fault => rfl
              | none =>
                  have ihl := ih (hlength.trans_le (Nat.le_of_lt_succ h))
                  have ihr := ih (hlength'.trans_le (Nat.le_of_lt_succ h))
                  simp only [ihl, ihr, read, hl, hr, htrim, htrim', bind, Except.bind]
                  cases left.fault? c.left.text <;> cases right.fault? c.right.text <;> rfl

namespace Expression

/-- A text that follows the grammar on its outermost level follows it on all levels: no term of it,
and no term below, is malformed when it is read alone. -/
theorem malformed_at_outermost_level (text : String) (θ : Float) :
    (∀ term, Relation.TransGen IsTerm term text → ¬ Malformed (read term)) ∧
      (Malformed (Specification.parse text θ) ↔ Malformed (read text)) ∧
      (Malformed (measureNames text) ↔ Malformed (read text)) ∧
      ∀ depth, text.length < depth →
        Outline.readWithin Expression.read depth text = Outline.read text := by
  have hmap {α : Type} (f : Outline → α) :
      Malformed ((Outline.read text).map f) ↔ Malformed (read text) := by
    rw [malformed_map, malformed_outline_read, malformed_read]
  refine ⟨fun term h => ?_, hmap (Specification.ofOutline · θ), hmap Outline.measures,
    fun depth h => Outline.readWithin_read h⟩
  obtain ⟨t, h, -⟩ := Relation.TransGen.head'_iff.mp h
  exact h.not_malformed

end Expression

end LinkDiscovery
