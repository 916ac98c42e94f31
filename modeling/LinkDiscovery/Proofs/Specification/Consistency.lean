import LinkDiscovery.Proofs.Grammar.Levels
import LinkDiscovery.Proofs.Specification.WrittenOut
import LinkDiscovery.Specification.Building
/-!
What the fields of a node have to do with each other. The text of a node is kept beside what it is
written from: a leaf has the text that it is filtered by, and the text of an inner node is written from
its operator, or from the keyword that it was read with, and from its children. No constructor and no
change of a tree makes them differ.
-/

namespace LinkDiscovery.Specification

open Grammar

/-- The keyword of a node's operator; without an operator there is none. -/
def operatorWord (s : Specification) : String :=
  (s.label.operator.map Operator.text).getD ""

/-- The text that a keyword, perhaps the weights of a sum, and children make. -/
def written (keyword : String) : Option (Float × Float) → List Specification → String
  | some weights, [left, right] => summed keyword weights left right
  | _, children => listed keyword children

/-- The keywords that a node's text may begin with: that of its operator, and the one that the node
was read with, if nothing but its threshold has changed since. -/
inductive HeadedBy (s : Specification) : String → Prop
  | operator : HeadedBy s s.operatorWord
  | read {text : String} {θ : Float} {c : Compound} {left right : Outline}
      (htext : Outline.parse text = .ok (.node c left right))
      (hs : parse text θ = .ok (s.setThreshold θ)) : HeadedBy s c.keyword.text

/-- The fields of a node agree. -/
structure Consistent (s : Specification) : Prop where
  /-- An inner node has nothing of a leaf. -/
  inner : s.children ≠ [] → s.label.filter = none ∧ s.label.measure = none ∧
    s.label.property₁ = none ∧ s.label.property₂ = none
  /-- The text of an inner node is that of its current children. -/
  text : s.children ≠ [] → ∃ keyword, s.HeadedBy keyword ∧
    (∀ k : Keyword, keyword = k.text → s.label.operator = some k.operator) ∧
      s.label.full = written keyword s.label.weights s.children
  leaf : s.children = [] → s.label.full = s.label.filter.getD ""
  weights : ∀ w, s.label.weights = some w → s.label.operator = some .and ∧
    ∃ left right, s.children = [left, right] ∧ s.label.full = summed "ADD" w left right

/-- Trees that come out of reading, building and changing trees, any number of times and in any order.
A copy of a tree is the tree. -/
inductive Reachable : Specification → Prop
  | parse {text : String} {θ : Float} {s : Specification} (h : parse text θ = .ok s) : Reachable s
  | empty : Reachable .empty
  | leaf (measure property₁ property₂ : String) (θ : Float) :
      Reachable (.leaf measure property₁ property₂ θ)
  | composite (operator : Operator) (θ : Float) {cs : List Specification}
      (h : ∀ c ∈ cs, Reachable c) : Reachable (.composite operator θ cs)
  | child {s c : Specification} (h : Reachable s) (hc : c ∈ s.children) : Reachable c
  | addChild {s c : Specification} (h : Reachable s) (hc : Reachable c) : Reachable (s.addChild c)
  | setOperator {s : Specification} (h : Reachable s) (operator : Operator) :
      Reachable (s.setOperator operator)
  | setThreshold {s : Specification} (h : Reachable s) (θ : Float) : Reachable (s.setThreshold θ)
  | setLeaf {s : Specification} (h : Reachable s) (measure property₁ property₂ : String) :
      Reachable (s.setLeaf measure property₁ property₂)

/-! Nodes. -/

variable {s t c : Specification} {l : Label} {cs : List Specification} {text : String} {θ : Float}

theorem forall_isNode {P : Specification → Prop} :
    (∀ t, IsNode t s → P t) ↔ P s ∧ ∀ c ∈ s.children, ∀ t, IsNode t c → P t := by
  constructor
  · exact fun h => ⟨h s (.root s), fun c hc t ht => h t (.child hc ht)⟩
  · rintro ⟨hroot, hbelow⟩ t ht
    cases ht with
    | root => exact hroot
    | child hc ht => exact hbelow _ hc t ht

/-- The children of a tree that is read are read from the texts of its terms. -/
theorem parse_child (h : parse text θ = .ok s) (hc : c ∈ s.children) :
    ∃ text' θ', parse text' θ' = .ok c := by
  obtain ⟨o, ho, hfault, rfl⟩ := parse_eq_ok.mp h
  cases o with
  | leaf => cases hc
  | node compound left right =>
      obtain ⟨-, hfl, hfr⟩ := Outline.fault?_node.mp hfault
      obtain ⟨⟨hl, htl, -⟩, hr, htr, -⟩ := Outline.parse_terms ho
      have hchildren : c ∈ [ofOutline left (compound.thresholds θ).1,
        ofOutline right (compound.thresholds θ).2] := hc
      rcases List.mem_pair.mp hchildren with rfl | rfl
      · exact ⟨_, _, parse_eq_ok.mpr ⟨left, hl, htl.symm ▸ hfl, rfl⟩⟩
      · exact ⟨_, _, parse_eq_ok.mpr ⟨right, hr, htr.symm ▸ hfr, rfl⟩⟩

theorem parse_isNode (h : parse text θ = .ok s) (ht : IsNode t s) :
    ∃ text' θ', parse text' θ' = .ok t := by
  induction ht generalizing text θ with
  | root => exact ⟨text, θ, h⟩
  | child hc _ ih =>
      obtain ⟨text', θ', h'⟩ := parse_child h hc
      exact ih h'

/-! One lemma for each way to make a node. -/

theorem keyword_text_injective {k k' : Keyword} (h : k.text = k'.text) : k = k' := by
  revert h
  cases k <;> cases k' <;> decide

/-- The keyword of an operator stands for the operator. -/
theorem operatorWord_keyword {k : Keyword} (h : s.operatorWord = k.text) :
    s.label.operator = some k.operator := by
  unfold operatorWord at h
  generalize s.label.operator = operator at h ⊢
  revert h
  cases operator with
  | none => cases k <;> decide
  | some o => cases k <;> cases o <;> decide

/-- An inner node without weights whose text is written by its operator. -/
theorem consistent_node (hcs : cs ≠ []) (hfilter : l.filter = none) (hmeasure : l.measure = none)
    (h₁ : l.property₁ = none) (h₂ : l.property₂ = none) (hweights : l.weights = none)
    (hfull : l.full = listed (operatorWord (node l cs)) cs) : (node l cs).Consistent where
  inner _ := ⟨hfilter, hmeasure, h₁, h₂⟩
  text _ := by
    refine ⟨_, .operator, fun k hk => operatorWord_keyword hk, hfull.trans ?_⟩
    simp only [label, children, hweights, written]
  leaf h := absurd h hcs
  weights w h := by
    rw [label, hweights] at h
    cases h

/-- A node without children and weights that is described by its text. -/
theorem consistent_leaf (hfull : l.full = l.filter.getD "") (hweights : l.weights = none) :
    (node l []).Consistent where
  inner h := absurd rfl h
  text h := absurd rfl h
  leaf _ := hfull
  weights w h := by
    rw [label, hweights] at h
    cases h

theorem consistent_parse (h : parse text θ = .ok s) : s.Consistent := by
  obtain ⟨o, ho, -, rfl⟩ := parse_eq_ok.mp h
  cases o with
  | leaf spelling call => exact consistent_leaf rfl rfl
  | node c left right =>
      refine ⟨fun _ => ⟨rfl, rfl, rfl, rfl⟩, fun _ => ?_, fun hnil => ?_, fun w hw => ?_⟩
      · refine ⟨_, .read ho h, fun k hk => ?_, ?_⟩
        · rw [← keyword_text_injective hk]
          rfl
        · by_cases hsum : c.keyword = .add <;>
            simp [ofOutline, ofCompound, label, children, written, hsum]
      · exact absurd hnil (List.cons_ne_nil _ _)
      · by_cases hsum : c.keyword = .add
        · obtain rfl : (c.left.coefficient, c.right.coefficient) = w := by
            simpa [ofOutline, ofCompound, label, hsum] using hw
          refine ⟨congrArg (fun k => some (Keyword.operator k)) hsum, _, _, rfl, ?_⟩
          simp [ofOutline, ofCompound, label, hsum, Keyword.text]
        · simp [ofOutline, ofCompound, label, hsum] at hw

theorem Consistent.setThreshold (h : s.Consistent) (θ : Float) : (s.setThreshold θ).Consistent := by
  obtain ⟨l, cs⟩ := s
  refine ⟨h.inner, fun hcs => ?_, h.leaf, h.weights⟩
  obtain ⟨keyword, hheaded, hoperator, hfull⟩ := h.text hcs
  refine ⟨keyword, ?_, hoperator, hfull⟩
  cases hheaded with
  | operator => exact .operator
  | read htext hs => exact .read htext hs

theorem Consistent.setOperator (h : s.Consistent) (o : Operator) : (s.setOperator o).Consistent := by
  obtain ⟨l, cs⟩ := s
  cases cs with
  | nil => exact consistent_leaf (h.leaf rfl) rfl
  | cons c cs =>
      obtain ⟨hfilter, hmeasure, h₁, h₂⟩ := h.inner (List.cons_ne_nil _ _)
      exact consistent_node (List.cons_ne_nil _ _) hfilter hmeasure h₁ h₂ rfl rfl

theorem consistent_composite (o : Operator) (θ : Float) (cs : List Specification) :
    (composite o θ cs).Consistent := by
  cases cs with
  | nil => exact consistent_leaf rfl rfl
  | cons c cs => exact consistent_node (List.cons_ne_nil _ _) rfl rfl rfl rfl rfl rfl

theorem consistent_addChild (s c : Specification) : (s.addChild c).Consistent := by
  obtain ⟨l, cs⟩ := s
  cases cs with
  | nil => exact consistent_node (List.cons_ne_nil _ _) rfl rfl rfl rfl rfl rfl
  | cons d cs => exact consistent_node (List.cons_ne_nil _ _) rfl rfl rfl rfl rfl rfl

/-! The children of changed trees. -/

theorem children_refresh (l : Label) (cs : List Specification) :
    (refresh (node l cs)).children = cs := by
  cases cs <;> rfl

theorem children_addChild (s c : Specification) : (s.addChild c).children = s.children ++ [c] := by
  obtain ⟨l, cs⟩ := s
  exact children_refresh _ _

theorem children_setOperator (s : Specification) (o : Operator) :
    (s.setOperator o).children = s.children := by
  obtain ⟨l, cs⟩ := s
  exact children_refresh _ _

theorem children_setThreshold (s : Specification) (θ : Float) :
    (s.setThreshold θ).children = s.children := by
  obtain ⟨l, cs⟩ := s
  rfl

/-- The fields of all nodes of a reachable tree agree. -/
theorem Reachable.forall_consistent (h : s.Reachable) : ∀ t, IsNode t s → t.Consistent := by
  induction h with
  | parse h =>
      intro t ht
      obtain ⟨text', θ', h'⟩ := parse_isNode h ht
      exact consistent_parse h'
  | empty => exact forall_isNode.mpr ⟨consistent_leaf rfl rfl, fun c hc => by cases hc⟩
  | leaf measure property₁ property₂ θ =>
      exact forall_isNode.mpr ⟨consistent_leaf rfl rfl, fun c hc => by cases hc⟩
  | composite o θ _ ih =>
      refine forall_isNode.mpr ⟨consistent_composite o θ _, fun c hc => ih c ?_⟩
      rwa [Specification.composite, children_refresh] at hc
  | child _ hc ih => exact (forall_isNode.mp ih).2 _ hc
  | @addChild s c _ _ ih ihc =>
      refine forall_isNode.mpr ⟨consistent_addChild s c, fun d hd => ?_⟩
      rw [children_addChild, List.mem_append, List.mem_singleton] at hd
      rcases hd with hd | rfl
      · exact (forall_isNode.mp ih).2 d hd
      · exact ihc
  | setOperator _ o ih =>
      obtain ⟨hroot, hbelow⟩ := forall_isNode.mp ih
      refine forall_isNode.mpr ⟨hroot.setOperator o, ?_⟩
      rwa [children_setOperator]
  | setThreshold _ θ ih =>
      obtain ⟨hroot, hbelow⟩ := forall_isNode.mp ih
      refine forall_isNode.mpr ⟨hroot.setThreshold θ, ?_⟩
      rwa [children_setThreshold]
  | setLeaf => exact forall_isNode.mpr ⟨consistent_leaf rfl rfl, fun c hc => by cases hc⟩

/-- However a tree is read, built and changed, the fields of its root agree. -/
theorem reachable_consistent (h : s.Reachable) : s.Consistent :=
  h.forall_consistent s (.root s)

/-- A sum that is read and gets another threshold, and a node over it that gets another operator. -/
theorem reachable_consistent_sample :
    let w := Spelling.sample .add ['A', 'd', 'd']
    let sum := (ofOutline w.outline 0.5).setThreshold 0.75
    let s := ((composite .or 0.5 [sum]).addChild (leaf "jaccard" "a" "b" 1)).setOperator .minus
    (sum.Reachable ∧ sum.label.weights.isSome ∧ sum.Consistent) ∧ s.Reachable ∧ s.Consistent := by
  intro w sum s
  have hw : w.WrittenOut := Spelling.sample_writtenOut rfl
  obtain ⟨-, hparse⟩ := hw.parse_chars 0.5
  have hsum : sum.Reachable := (Reachable.parse hparse).setThreshold 0.75
  have hcomposite : (composite .or 0.5 [sum]).Reachable :=
    .composite .or 0.5 fun c hc => List.mem_singleton.mp hc ▸ hsum
  have hs : s.Reachable := (hcomposite.addChild (.leaf "jaccard" "a" "b" 1)).setOperator .minus
  exact ⟨⟨hsum, rfl, reachable_consistent hsum⟩, hs, reachable_consistent hs⟩

end LinkDiscovery.Specification
