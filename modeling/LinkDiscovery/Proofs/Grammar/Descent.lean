import LinkDiscovery.Proofs.Grammar.Leaves
/-!
Descent into terms. The terms of a compound stand in its text one behind the other, each with a bar and a
threshold, between the operator, the parentheses and the comma; so they are shorter than the text. A
recursion that takes up the texts of terms therefore ends, and it calls itself less often than the text has
characters. Reading specifications, naming measures and looking measures up are such recursions.
-/

namespace LinkDiscovery

open Grammar Text

/-- How a compound stands in a text: its operator, and each of its terms with what is written around it. -/
structure Compound.Layout (c : Compound) (text : String) where
  word : List Char
  gap : List Char
  leftFrame : Frame
  rightFrame : Frame
  keyword : Keyword.ofLetters? word = some c.keyword
  blanks : Blanks gap
  left : leftFrame.Legible c.left.text.toList ∧ leftFrame.term c.left.text.toList = c.left
  right : rightFrame.Legible c.right.text.toList ∧ rightFrame.term c.right.text.toList = c.right
  text_eq : text.toList = word ++ (gap ++ '(' :: (leftFrame.around c.left.text.toList ++
    ',' :: (rightFrame.around c.right.text.toList ++ [')'])))

namespace Compound.Layout

variable {c : Compound} {text : String}

/-- The number of characters of the operator and of both thresholds, with the parentheses, the comma and
the bars. -/
def fixedLength (p : c.Layout text) : ℕ :=
  p.word.length + p.leftFrame.threshold.text.length + p.rightFrame.threshold.text.length + 5

theorem length_le (p : c.Layout text) :
    c.left.text.length + c.right.text.length + p.fixedLength ≤ text.length := by
  have hlength := congrArg List.length p.text_eq
  simp only [Frame.around, List.length_append, List.length_cons, List.length_nil,
    String.length_toList] at hlength
  rw [hlength, fixedLength]
  omega

theorem terms_lt (p : c.Layout text) :
    c.left.text.length < text.length ∧ c.right.text.length < text.length := by
  have hlength := p.length_le
  rw [fixedLength] at hlength
  omega

end Compound.Layout

namespace Expression

variable {text term : String} {c : Compound}

/-- A compound that is read stands in the text, and its terms are not empty. -/
theorem exists_layout (h : read text = .ok (.compound c)) :
    Nonempty (c.Layout (trim text)) ∧ c.left.text ≠ "" ∧ c.right.text ≠ "" := by
  obtain ⟨left, right, ho, -⟩ := read_eq_compound.mp h
  obtain ⟨w, hw, ho, htext⟩ := exists_spelling ho
  cases w with
  | leaf => cases ho
  | node k word gap f l g r =>
      obtain ⟨rfl, rfl, rfl⟩ := Outline.node.inj ho
      obtain ⟨⟨hk, hgap⟩, ⟨hf, hl⟩, hg, hr⟩ := hw
      have hne {v : Spelling} (hv : v.Legible) : String.ofList v.chars ≠ "" := by
        obtain ⟨first, middle, -, hchars⟩ := hv.ends
        simp [hchars]
      have hterm (f : Frame) (v : Spelling) : (f.term v.chars).text.toList = v.chars :=
        String.toList_ofList
      refine ⟨⟨{
          word, gap, leftFrame := f, rightFrame := g, keyword := hk, blanks := hgap,
          left := ?_, right := ?_, text_eq := ?_ }⟩, hne hl, hne hr⟩
      · rw [hterm]
        exact ⟨hf, rfl⟩
      · rw [hterm]
        exact ⟨hg, rfl⟩
      · rw [hterm, hterm, toList_trim, htext, Spelling.chars]

theorem IsTerm.length_lt (h : IsTerm term text) : term.length < text.length := by
  obtain ⟨c, hread, hterm⟩ := h
  obtain ⟨⟨p⟩, -⟩ := exists_layout hread
  have hshorter := p.terms_lt
  have htext := length_trim_le text
  rcases hterm with rfl | rfl <;> omega

/-- There is no endless descent into terms. -/
theorem isTerm_wellFounded : WellFounded IsTerm :=
  Subrelation.wf IsTerm.length_lt (measure String.length).wf

end Expression

/-! Recursions over terms. -/

/-- What a descent comes to, how often the recursion calls itself in it and how deep these calls are
nested. -/
structure Descent (ε α : Type) where
  outcome : Except ε α
  calls : ℕ
  depth : ℕ

/-- What the descents into both terms come to. If the left one fails, the right one is not begun. -/
def Descent.both {ε α : Type} (combine : α → α → α) (left right : Descent ε α) : Descent ε α :=
  match left.outcome with
  | .error e => { outcome := .error e, calls := left.calls + 1, depth := left.depth + 1 }
  | .ok a =>
    { outcome := right.outcome.map (combine a)
      calls := left.calls + right.calls + 2
      depth := max left.depth right.depth + 1 }

theorem Descent.both_outcome {ε α : Type} (combine : α → α → α) (left right : Descent ε α) :
    (Descent.both combine left right).outcome =
      left.outcome.bind fun a => right.outcome.map (combine a) := by
  unfold Descent.both
  cases left.outcome <;> rfl

/-- The bounds that a text sets to the descent into it: no more calls than characters that follow the
first one. -/
structure Descent.Within {ε α : Type} (d : Descent ε α) (text : String) : Prop where
  depth_le : d.depth ≤ d.calls
  calls_le : d.calls ≤ text.length - 1

theorem Descent.both_within {ε α : Type} {combine : α → α → α} {c : Compound} {text : String}
    {left right : Descent ε α} (p : c.Layout (trim text)) (hl : left.Within c.left.text)
    (hr : right.Within c.right.text) : (Descent.both combine left right).Within text := by
  have hlength : c.left.text.length + c.right.text.length + 5 ≤ text.length := by
    have htext := p.length_le.trans (length_trim_le text)
    rw [Compound.Layout.fixedLength] at htext
    omega
  -- the five characters pay for both calls, also when a term were empty
  obtain ⟨hdl, hcl⟩ := hl
  obtain ⟨hdr, hcr⟩ := hr
  unfold Descent.both
  split
  · exact ⟨by dsimp only; omega, by dsimp only; omega⟩
  · exact ⟨by dsimp only; omega, by dsimp only; omega⟩

/-- A recursion that reads the outermost level of a text and takes up the texts of its terms, the left one
first: what it makes of a fault and of a call, what it hands on to the terms, and what it makes of their
values. -/
structure Recursion (σ ε α : Type) where
  fault : Expression.Fault → ε
  call : σ → String → Call → Except ε α
  handOn : Compound → σ → σ × σ
  compound : Compound → σ → α → α → α

namespace Recursion

variable {σ ε α : Type}

def run (r : Recursion σ ε α) (x : σ) (text : String) : Descent ε α :=
  match _h : Expression.read text with
  | .error fault => { outcome := .error (r.fault fault), calls := 0, depth := 0 }
  | .ok (.call call) => { outcome := r.call x text call, calls := 0, depth := 0 }
  | .ok (.compound c) =>
    .both (r.compound c x) (r.run (r.handOn c x).1 c.left.text) (r.run (r.handOn c x).2 c.right.text)
termination_by text.length
decreasing_by
  · exact Expression.IsTerm.length_lt ⟨c, ‹_›, .inl rfl⟩
  · exact Expression.IsTerm.length_lt ⟨c, ‹_›, .inr rfl⟩

variable {r : Recursion σ ε α} {x : σ} {text : String}

theorem run_error {fault : Expression.Fault} (h : Expression.read text = .error fault) :
    r.run x text = { outcome := .error (r.fault fault), calls := 0, depth := 0 } := by
  rw [run]
  split <;> simp_all

theorem run_call {call : Call} (h : Expression.read text = .ok (.call call)) :
    r.run x text = { outcome := r.call x text call, calls := 0, depth := 0 } := by
  rw [run]
  split <;> simp_all

theorem run_compound {c : Compound} (h : Expression.read text = .ok (.compound c)) :
    r.run x text = .both (r.compound c x) (r.run (r.handOn c x).1 c.left.text)
      (r.run (r.handOn c x).2 c.right.text) := by
  rw [run]
  split <;> simp_all

/-- A recursion stays within the bounds of the text, whatever its own part of the work. -/
theorem run_within (r : Recursion σ ε α) (x : σ) (text : String) : (r.run x text).Within text := by
  induction text using Expression.isTerm_wellFounded.induction generalizing x with
  | _ text ih =>
    cases hread : Expression.read text with
    | error fault =>
        rw [run_error hread]
        exact ⟨le_rfl, Nat.zero_le _⟩
    | ok e =>
        cases e with
        | call call =>
            rw [run_call hread]
            exact ⟨le_rfl, Nat.zero_le _⟩
        | compound c =>
            rw [run_compound hread]
            obtain ⟨⟨p⟩, -⟩ := Expression.exists_layout hread
            exact Descent.both_within p (ih _ ⟨c, hread, .inl rfl⟩ _) (ih _ ⟨c, hread, .inr rfl⟩ _)

/-- The equations that the recursion sets up. -/
structure Follows (r : Recursion σ ε α) (g : σ → String → Except ε α) : Prop where
  error : ∀ {x text fault}, Expression.read text = .error fault → g x text = .error (r.fault fault)
  call : ∀ {x text call}, Expression.read text = .ok (.call call) → g x text = r.call x text call
  compound : ∀ {x text c}, Expression.read text = .ok (.compound c) →
    g x text = (g (r.handOn c x).1 c.left.text).bind fun a =>
      (g (r.handOn c x).2 c.right.text).map (r.compound c x a)

/-- The equations have one solution, which is what the recursion comes to. -/
theorem Follows.outcome_eq {g : σ → String → Except ε α} (h : r.Follows g) (x : σ) (text : String) :
    (r.run x text).outcome = g x text := by
  induction text using Expression.isTerm_wellFounded.induction generalizing x with
  | _ text ih =>
    cases hread : Expression.read text with
    | error fault => rw [run_error hread, h.error hread]
    | ok e =>
        cases e with
        | call call => rw [run_call hread, h.call hread]
        | compound c =>
            rw [run_compound hread, Descent.both_outcome, h.compound hread,
              ih _ ⟨c, hread, .inl rfl⟩, ih _ ⟨c, hread, .inr rfl⟩]

end Recursion

/-! One level. -/

namespace Outline

variable {text : String} {c : Compound}

theorem read_of_error {fault : Expression.Fault} (h : Expression.read text = .error fault) :
    Outline.read text = .error fault := by
  rcases Expression.read_eq_error.mp h with ho | ⟨c, left, right, ho, hc⟩
  · rw [Outline.read, ho]
    rfl
  · simp only [Outline.read, ho, bind, Except.bind, fault?, hc, Option.some_or]
    rfl

theorem read_of_call {call : Call} (h : Expression.read text = .ok (.call call)) :
    Outline.read text = .ok (.leaf (trim text) call) := by
  obtain ⟨s, ho⟩ := Expression.read_eq_call.mp h
  obtain rfl := text_of_parse_leaf ho
  exact read_eq_ok.mpr ⟨ho, rfl⟩

theorem read_of_compound (h : Expression.read text = .ok (.compound c)) :
    Outline.read text = (Outline.read c.left.text).bind fun left =>
      (Outline.read c.right.text).map (node c left) := by
  obtain ⟨left, right, ho, hc⟩ := Expression.read_eq_compound.mp h
  -- the text of a term has no blanks around it, so its numbers are checked under the same text
  obtain ⟨⟨hl, htrim, -⟩, hr, htrim', -⟩ := parse_terms ho
  simp only [Outline.read, ho, hl, hr, htrim, htrim', bind, Except.bind, fault?, hc, Option.none_or]
  cases left.fault? c.left.text <;> cases right.fault? c.right.text <;> rfl

end Outline

/-! The three recursions. -/

def Specification.parsing : Recursion Float Expression.Fault Specification where
  fault := id
  call θ text call := .ok (ofCall (trim text) call θ)
  handOn c θ := c.thresholds θ
  compound := ofCompound

def Expression.naming : Recursion Unit Expression.Fault (List String) where
  fault := id
  call _ _ call := .ok [call.measure]
  handOn _ _ := ((), ())
  compound _ _ left right := left ++ right

/-- A call is read once more, alone, when its measure is looked up. -/
def Registry.compiling (r : Registry) (sourceVar targetVar : String) :
    Recursion Unit Comparison.Fault Scorer where
  fault := .expression
  call _ text _ := do
    let c ← Comparison.read text sourceVar targetVar
    match r.measure? c.measure with
    | some m => return .comparison m c.sourceProperty c.targetProperty
    | none => throw (.unknownMeasure c.measure)
  handOn _ _ := ((), ())
  compound c _ left right := .compound c left right

theorem Specification.parsing_follows : parsing.Follows fun θ text => parse text θ where
  error h := by
    rw [parse, Outline.read_of_error h]
    rfl
  call h := by
    rw [parse, Outline.read_of_call h]
    rfl
  compound {θ text c} h := by
    simp only [parse, Outline.read_of_compound h]
    cases Outline.read c.left.text <;> cases Outline.read c.right.text <;> rfl

theorem Expression.naming_follows : naming.Follows fun _ text => measureNames text where
  error h := by
    rw [measureNames, Outline.read_of_error h]
    rfl
  call h := by
    rw [measureNames, Outline.read_of_call h]
    rfl
  compound {θ text c} h := by
    simp only [measureNames, Outline.read_of_compound h]
    cases Outline.read c.left.text <;> cases Outline.read c.right.text <;> rfl

theorem Registry.compiling_follows (r : Registry) (sourceVar targetVar : String) :
    (r.compiling sourceVar targetVar).Follows fun _ text => r.compile text sourceVar targetVar where
  error h := by
    rcases Expression.read_eq_error.mp h with ho | ⟨c, left, right, ho, hc⟩
    · simp only [compile, ho]
      rfl
    · simp only [compile, ho, resolve, hc]
      rfl
  call h := by
    obtain ⟨s, ho⟩ := Expression.read_eq_call.mp h
    obtain ⟨rfl, hcall, -⟩ := Expression.parse_leaf_iff.mp ho
    simp only [compile, ho, compiling, Comparison.read, hcall]
    rfl
  compound {x text c} h := by
    obtain ⟨left, right, ho, hc⟩ := Expression.read_eq_compound.mp h
    obtain ⟨⟨hl, htrim, -⟩, hr, htrim', -⟩ := Outline.parse_terms ho
    simp only [compile, ho, hl, hr, htrim, htrim', resolve, hc]
    cases r.resolve sourceVar targetVar c.left.text left <;>
      cases r.resolve sourceVar targetVar c.right.text right <;> rfl

namespace Expression

/-- Descent into terms ends. The terms of a compound that is read stand in its text one behind the other;
neither is empty, and together they are shorter than the text by the operator, the parentheses, the comma,
the bars and the thresholds at least. What is read of a specification, the names of its measures and the
scorer are what the recursions over terms come to, and these stay within the bounds of the text. -/
theorem descent_bounded (r : Registry) (sourceVar targetVar text : String) (θ : Float) :
    (∀ c, read text = .ok (.compound c) → ∃ p : c.Layout (trim text),
        (c.left.text ≠ "" ∧ c.right.text ≠ "") ∧
        (c.left.text.length < (trim text).length ∧ c.right.text.length < (trim text).length) ∧
        (p.word ≠ [] ∧ p.leftFrame.threshold.text ≠ [] ∧ p.rightFrame.threshold.text ≠ []) ∧
        c.left.text.length + c.right.text.length + p.fixedLength ≤ (trim text).length) ∧
      WellFounded IsTerm ∧
      ((Specification.parsing.run θ text).outcome = Specification.parse text θ ∧
        (Specification.parsing.run θ text).Within text) ∧
      ((naming.run () text).outcome = measureNames text ∧ (naming.run () text).Within text) ∧
      (((r.compiling sourceVar targetVar).run () text).outcome = r.compile text sourceVar targetVar ∧
        ((r.compiling sourceVar targetVar).run () text).Within text) := by
  refine ⟨fun c hread => ?_, isTerm_wellFounded,
    ⟨Specification.parsing_follows.outcome_eq θ text, Recursion.run_within _ θ text⟩,
    ⟨naming_follows.outcome_eq () text, Recursion.run_within _ () text⟩,
    (r.compiling_follows sourceVar targetVar).outcome_eq () text, Recursion.run_within _ () text⟩
  obtain ⟨⟨p⟩, hl, hr⟩ := exists_layout hread
  exact ⟨p, ⟨hl, hr⟩, p.terms_lt, ⟨(ofLetters?_chars p.keyword).1, p.left.1.threshold.text_ne,
    p.right.1.threshold.text_ne⟩, p.length_le⟩

/-- Three levels, with blanks and a coefficient. -/
theorem descent_bounded_sample :
    let text := " Or ( a(x,y)|1 , 2*min(b(x)|1, add(c(x)|0, c(y)|0)|.5)|1e-3)\n"
    (∃ c, read text = .ok (.compound c) ∧ ∃ p : c.Layout (trim text),
        c.left.text.length + c.right.text.length + p.fixedLength ≤ 59) ∧
      (naming.run () text).outcome.toOption = some ["a", "b", "c", "c"] ∧
        (naming.run () text).calls ≤ 60 := by
  intro text
  obtain ⟨hlayout, -, -, ⟨houtcome, hwithin⟩, -⟩ := descent_bounded .standard "x" "y" text 0.5
  have htrim : (trim text).length = 59 := by decide +kernel
  have htext : text.length - 1 = 60 := by decide +kernel
  refine ⟨?_, ?_, htext ▸ hwithin.calls_le⟩
  · have hcall : (read text).toOption.map isCall = some false := by decide +kernel
    cases hread : read text with
    | error fault => simp [hread, Except.toOption] at hcall
    | ok e =>
        cases e with
        | call call => simp [hread, Except.toOption, isCall] at hcall
        | compound c =>
            obtain ⟨p, -, -, -, hlength⟩ := hlayout c hread
            exact ⟨c, rfl, p, hlength.trans_eq htrim⟩
  · rw [houtcome]
    decide +kernel

end Expression

end LinkDiscovery
