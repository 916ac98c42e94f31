import LinkDiscovery.Measure.Scorer
import LinkDiscovery.Proofs.Specification.Canonical
/-!
When the measures of an expression can be looked up, and what the full text of a specification has
for a scorer: one that scores all pairs as the scorer of the expression does.
-/

namespace LinkDiscovery

namespace Outline

/-- The outline calls measures of the registry only, each with two arguments. -/
def ComparesBy (r : Registry) : Outline → Prop
  | leaf _ call => call.arguments.length = 2 ∧ (r.measure? call.measure).isSome
  | node _ left right => left.ComparesBy r ∧ right.ComparesBy r

/-- The outline is one of an expression without sums. -/
def NoSums : Outline → Prop
  | leaf _ _ => True
  | node c left right => c.keyword ≠ .add ∧ left.NoSums ∧ right.NoSums

end Outline

/-- The text of a call with two arguments is read as a comparison. -/
theorem Grammar.comparison_read {name gap : List Char} {pieces : List (List Char)}
    (hw : Spelling.LegibleLeaf name gap pieces) {first second : String}
    (harguments : pieces.map argumentOf = [first, second]) (sv tv : String) :
    Comparison.read (String.ofList (Spelling.leaf name gap pieces).chars) sv tv =
      .ok {
        measure := String.ofList name
        sourceProperty := Path.property first sv
        targetProperty := Path.property second tv } := by
  simp only [Comparison.read, call_read hw, Comparison.ofCall, harguments]

namespace Registry

variable {r : Registry} {sv tv text : String}

theorem resolve_leaf {spelling : String} {call : Call} {scorer : Scorer} :
    r.resolve sv tv text (.leaf spelling call) = .ok scorer ↔
      ∃ first second m, call.arguments = [first, second] ∧ r.measure? call.measure = some m ∧
        scorer = .comparison m (Path.property first sv) (Path.property second tv) := by
  obtain ⟨name, arguments⟩ := call
  rcases arguments with _ | ⟨first, _ | ⟨second, _ | ⟨third, others⟩⟩⟩ <;>
    simp only [resolve, Comparison.ofCall, bind, Except.bind]
  · simp
  · simp
  · cases hm : r.measure? name with
    | none => simp [throw, throwThe, MonadExceptOf.throw]
    | some m => simp [pure, Except.pure, eq_comm]
  · simp

theorem resolve_node {c : Compound} {left right : Outline} {scorer : Scorer} :
    r.resolve sv tv text (.node c left right) = .ok scorer ↔
      c.fault? text = none ∧ ∃ a b, r.resolve sv tv c.left.text left = .ok a ∧
        r.resolve sv tv c.right.text right = .ok b ∧ scorer = .compound c a b := by
  rw [resolve]
  cases c.fault? text with
  | some fault => simp
  | none =>
      cases r.resolve sv tv c.left.text left with
      | error fault => simp [bind, Except.bind]
      | ok a =>
          cases r.resolve sv tv c.right.text right with
          | error fault => simp [bind, Except.bind]
          | ok b => simp [bind, Except.bind, pure, Except.pure, eq_comm]

/-- The measures of an outline without faults can be looked up if all of them are known. -/
theorem exists_resolve (sv tv : String) {o : Outline} (ho : o.ComparesBy r)
    (hfault : o.fault? text = none) : ∃ scorer, r.resolve sv tv text o = .ok scorer := by
  induction o generalizing text with
  | leaf spelling call =>
      obtain ⟨hlength, hknown⟩ := ho
      obtain ⟨first, second, harguments⟩ := List.length_eq_two.mp hlength
      obtain ⟨m, hm⟩ := Option.isSome_iff_exists.mp hknown
      exact ⟨_, resolve_leaf.mpr ⟨first, second, m, harguments, hm, rfl⟩⟩
  | node c left right ihl ihr =>
      obtain ⟨hc, hl, hr⟩ := Outline.fault?_node.mp hfault
      obtain ⟨a, ha⟩ := ihl ho.1 hl
      obtain ⟨b, hb⟩ := ihr ho.2 hr
      exact ⟨_, resolve_node.mpr ⟨hc, a, b, ha, hb, rfl⟩⟩

theorem fault?_of_resolve {o : Outline} {scorer : Scorer}
    (h : r.resolve sv tv text o = .ok scorer) : o.fault? text = none := by
  induction o generalizing text scorer with
  | leaf spelling call => rfl
  | node c left right ihl ihr =>
      obtain ⟨hc, a, b, ha, hb, -⟩ := resolve_node.mp h
      exact Outline.fault?_node.mpr ⟨hc, ihl ha, ihr hb⟩

theorem known_of_resolve {o : Outline} {scorer : Scorer}
    (h : r.resolve sv tv text o = .ok scorer) :
    ∀ name ∈ o.measures, (r.measure? name).isSome := by
  induction o generalizing text scorer with
  | leaf spelling call =>
      obtain ⟨-, -, m, -, hm, -⟩ := resolve_leaf.mp h
      simp [Outline.measures, hm]
  | node c left right ihl ihr =>
      obtain ⟨-, a, b, ha, hb, -⟩ := resolve_node.mp h
      intro name hname
      rcases List.mem_append.mp hname with hname | hname
      · exact ihl ha name hname
      · exact ihr hb name hname

theorem unresolved_eq (r : Registry) (text : String) :
    r.unresolved text =
      (Outline.read text).map fun o => o.measures.filter fun name => (r.measure? name).isNone := by
  unfold unresolved Expression.measureNames
  cases Outline.read text <;> rfl

/-- A text whose measures can be looked up has none that is unresolved, and can be compiled. -/
theorem compile_read {o : Outline} {scorer : Scorer} (hparse : Outline.parse text = .ok o)
    (h : r.resolve sv tv (Text.trim text) o = .ok scorer) :
    r.compile text sv tv = .ok scorer ∧ r.unresolved text = .ok [] := by
  refine ⟨by simp [compile, hparse, h], ?_⟩
  have hread : Outline.read text = .ok o := by
    simp [Outline.read, hparse, fault?_of_resolve h, bind, Except.bind, pure, Except.pure]
  have hnone : (o.measures.filter fun name => (r.measure? name).isNone) = [] := by
    rw [List.filter_eq_nil_iff]
    intro name hname
    simpa [Option.isSome_iff_ne_none] using known_of_resolve h name hname
  simp [unresolved_eq, hread, Except.map, hnone]

end Registry

namespace Grammar.Spelling

/-- In the full text of a specification, what a compound makes of the scores of its terms stays. -/
theorem combine_canonical (k : Keyword) (f : Frame) (left left' : Spelling) (g : Frame)
    (right right' : Spelling) (θ : Float) (before before' : List Char) (s₁ s₂ : Float) :
    Scorer.combine
        (top k (f.canonical k before ((top k f left g right).thresholds θ).1) left'
          (g.canonical k before' ((top k f left g right).thresholds θ).2) right') s₁ s₂ =
      Scorer.combine (top k f left g right) s₁ s₂ := by
  cases k <;> rfl

/-- The measures of the full text of a specification can be looked up, and its scorer scores as
that of the expression. -/
theorem resolve_canonical {r : Registry} {sv tv text : String} {w : Spelling} {scorer : Scorer}
    (h : r.resolve sv tv text w.outline = .ok scorer) {θ : Float}
    (hθ : ∀ t, Specification.IsNode t (Specification.ofOutline w.outline θ) →
      t.threshold.isFinite = true) (text' : String) :
    ∃ scorer', r.resolve sv tv text' (w.canonical θ).outline = .ok scorer' ∧
      ∀ s t, scorer'.score s t = scorer.score s t := by
  have hfault := fault?_canonical (Registry.fault?_of_resolve h) hθ text'
  induction w generalizing text text' θ scorer with
  | leaf name gap pieces =>
      exact ⟨scorer, Registry.resolve_leaf.mpr (Registry.resolve_leaf.mp h), fun _ _ => rfl⟩
  | node k word gap f left g right ihl ihr =>
      obtain ⟨-, a, b, ha, hb, rfl⟩ := Registry.resolve_node.mp h
      obtain ⟨-, hθl, hθr⟩ := Specification.forall_nodes.mp hθ
      obtain ⟨hc, hfl, hfr⟩ := Outline.fault?_node.mp hfault
      obtain ⟨a', ha', hsa⟩ := ihl ha hθl _ hfl
      obtain ⟨b', hb', hsb⟩ := ihr hb hθr _ hfr
      refine ⟨_, Registry.resolve_node.mpr ⟨hc, a', b', ha', hb', rfl⟩, fun s t => ?_⟩
      rw [Scorer.score, Scorer.score, hsa, hsb]
      exact combine_canonical k f left _ g right _ θ _ _ _ _

end Grammar.Spelling

end LinkDiscovery
