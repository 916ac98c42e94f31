import LinkDiscovery.Proofs.Execution.MissingSlots
import LinkDiscovery.Proofs.Execution.Registered
import LinkDiscovery.Proofs.Execution.Results
/-!
Warnings about measures that are not known. The plan of a specification gives one for each leaf whose
measure is not known, and each sum above such a leaf gives one more when it scores its links anew, so
that a plan without warnings has had all the measures that it calls.
-/

namespace LinkDiscovery

open Grammar

/-- The names under which no measure is registered, whatever the case of their letters. -/
def Registry.unknown (r : Registry) (names : List String) : List String :=
  names.filter fun name => (r.measure? name).isNone

namespace Specification

/-- The measures of the leaves, from left to right. -/
def leafMeasures (s : Specification) : List String :=
  s.leaves.filterMap measure

mutual

/-- The warnings that a specification is due: for a leaf one about its measure, and for an inner node
those of its children. A sum has one more for each leaf below it. -/
def warningsDue (r : Registry) : Specification → List Warning
  | node l [] => (r.unknown (node l []).measure.toList).map (.unresolvedMeasure (some 0))
  | node l (c :: cs) =>
    warningsDue r c ++ warningsDueAll r cs ++
      if l.weights.isSome then
        (r.unknown (node l (c :: cs)).leafMeasures).map (.unresolvedMeasure none)
      else []

def warningsDueAll (r : Registry) : List Specification → List Warning
  | [] => []
  | c :: cs => warningsDue r c ++ warningsDueAll r cs

end

variable {r : Registry} {w : Spelling} {θ : Float}

theorem leaves_node (c : Compound) (left right : Outline) (θ : Float) :
    (ofOutline (.node c left right) θ).leaves =
      (ofOutline left (c.thresholds θ).1).leaves ++ (ofOutline right (c.thresholds θ).2).leaves := by
  simp [ofOutline, ofCompound, leaves, leavesOf]

theorem warningsDue_node (r : Registry) (c : Compound) (left right : Outline) (θ : Float) :
    (ofOutline (.node c left right) θ).warningsDue r =
      (ofOutline left (c.thresholds θ).1).warningsDue r ++
        (ofOutline right (c.thresholds θ).2).warningsDue r ++
          if c.keyword = .add then
            (r.unknown (ofOutline (.node c left right) θ).leafMeasures).map (.unresolvedMeasure none)
          else [] := by
  by_cases hc : c.keyword = .add <;>
    simp [ofOutline, ofCompound, warningsDue, warningsDueAll, hc]

theorem measure_leaf {name gap : List Char} {pieces : List (List Char)}
    (hw : Spelling.LegibleLeaf name gap pieces) (θ : Float) :
    (ofOutline (Spelling.leaf name gap pieces).outline θ).measure = some (String.ofList name) := by
  have hne : String.ofList name ≠ "" := by
    simpa using hw.name_ne
  have hstored : (some (String.ofList name)).filter (· ≠ "") = some (String.ofList name) := by
    simp [Option.filter, hne]
  simp only [measure, isLeaf, children, Spelling.outline, ofOutline, ofCall, List.isEmpty_nil, if_true,
    label, hstored]

/-- Every leaf has a measure, and these are the measures that the expression calls. -/
theorem map_measure_leaves (hw : w.Legible) (θ : Float) :
    (ofOutline w.outline θ).leaves.map measure = w.outline.measures.map some := by
  induction w generalizing θ with
  | leaf name gap pieces => exact congrArg (fun measure => [measure]) (measure_leaf hw θ)
  | node k word gap f left g right ihl ihr =>
      obtain ⟨-, ⟨-, hl⟩, -, hr⟩ := hw
      rw [Spelling.outline, leaves_node, List.map_append, Outline.measures, List.map_append]
      exact congrArg₂ _ (ihl hl _) (ihr hr _)

theorem leafMeasures_eq (hw : w.Legible) (θ : Float) :
    (ofOutline w.outline θ).leafMeasures = w.outline.measures := by
  have hmap : (ofOutline w.outline θ).leafMeasures =
      ((ofOutline w.outline θ).leaves.map measure).filterMap id := by
    rw [List.filterMap_map]
    rfl
  rw [hmap, map_measure_leaves hw θ, List.filterMap_map]
  exact List.filterMap_some

theorem unknown_eq_nil {names : List String} :
    r.unknown names = [] ↔ ∀ name ∈ names, (r.measure? name).isSome := by
  simp [Registry.unknown, List.filter_eq_nil_iff, Option.isSome_iff_ne_none]

/-- The measures of all leaves are known if and only if those are that the expression calls. -/
theorem leaves_known_iff (hw : w.Legible) (θ : Float) :
    (∀ leaf ∈ (ofOutline w.outline θ).leaves,
        ∃ name, leaf.measure = some name ∧ (r.measure? name).isSome) ↔
      ∀ name ∈ w.outline.measures, (r.measure? name).isSome := by
  rw [← List.forall_mem_map (f := measure)
    (P := fun measure => ∃ name, measure = some name ∧ (r.measure? name).isSome),
    map_measure_leaves hw θ, List.forall_mem_map]
  simp

/-- No warnings are due if and only if all measures are known. -/
theorem warningsDue_eq_nil (hw : w.Legible) (θ : Float) :
    (ofOutline w.outline θ).warningsDue r = [] ↔
      ∀ name ∈ w.outline.measures, (r.measure? name).isSome := by
  induction w generalizing θ with
  | leaf name gap pieces =>
      change (r.unknown (ofOutline (Spelling.leaf name gap pieces).outline θ).measure.toList).map _ =
        [] ↔ _
      rw [measure_leaf hw θ, List.map_eq_nil_iff, unknown_eq_nil]
      rfl
  | node k word gap f left g right ihl ihr =>
      have hnames := leafMeasures_eq hw θ
      obtain ⟨-, ⟨-, hl⟩, -, hr⟩ := hw
      rw [Spelling.outline] at hnames ⊢
      rw [warningsDue_node, List.append_eq_nil_iff, List.append_eq_nil_iff, ihl hl, ihr hr, hnames,
        Outline.measures, List.forall_mem_append, and_iff_left_iff_imp]
      intro hknown
      -- the measures of a sum are those of its terms
      have hsum := unknown_eq_nil.mpr (List.forall_mem_append.mpr hknown)
      rw [hsum, List.map_nil, ite_self]

end Specification

theorem Grammar.Spelling.measures_canonical (w : Spelling) (θ : Float) :
    (w.canonical θ).outline.measures = w.outline.measures := by
  induction w generalizing θ with
  | leaf name gap pieces => rfl
  | node k word gap f left g right ihl ihr =>
      simp only [Spelling.canonical, Spelling.outline, Outline.measures, ihl, ihr]

namespace Engine

open Specification

variable {r : Registry} {sides : Sides} {w : Spelling} {text : String} {θ : Float} {ex : Execution}

/-- A run of a call that has a result warns about its measure if that is not known. -/
theorem warnings_of_run_leaf (hr : ∀ name, (r.mapper? name).isSome = (r.measure? name).isSome)
    {name gap : List Char} {pieces : List (List Char)} (hw : Spelling.LegibleLeaf name gap pieces)
    {position : ℕ}
    (h : (ofRegistry sides r).run
      (.run (String.ofList (Spelling.leaf name gap pieces).chars) θ) position = .ok ex) :
    ex.warnings = (r.unknown [String.ofList name]).map (.unresolvedMeasure (some position)) := by
  obtain ⟨text, c, htext, hread, hwarnings⟩ := warnings_of_run h
  obtain rfl := Option.some.inj htext
  simp only [Comparison.read, call_read hw] at hread
  obtain ⟨first, second, -, rfl⟩ := Comparison.ofCall_eq_ok.mp hread
  have hknown := hr (String.ofList name)
  rw [hwarnings, ofRegistry, Registry.unknown]
  cases hm : r.measure? (String.ofList name) <;> cases hmapper : r.mapper? (String.ofList name) <;>
    simp_all

/-- The warnings of a filter that scores links anew by a text that can be read. -/
theorem warnings_of_filteringBy {o : Outline} (hread : Outline.read text = .ok o) {links : Links}
    (h : (ofRegistry sides r).applyFilter (.filteringBy text θ) links none = .ok ex) :
    ex.warnings = (r.unknown o.measures).map (.unresolvedMeasure none) := by
  obtain ⟨names, hnames, hwarnings⟩ := warnings_of_applyFilter h
  have hunresolved : r.unresolved text = .ok (r.unknown o.measures) := by
    simp [Registry.unresolved_eq, hread, Except.map, Registry.unknown]
  obtain rfl := Except.ok.inj (hunresolved.symm.trans hnames)
  exact hwarnings

/-- A plan that has a result gives the warnings that its specification is due. -/
theorem warnings_of_executeNested
    (hr : ∀ name, (r.mapper? name).isSome = (r.measure? name).isSome) (hw : w.Legible)
    (hfault : w.outline.fault? text = none)
    (h : (ofRegistry sides r).executeNested (ofOutline w.outline θ).plan = .ok ex) :
    ex.warnings = (ofOutline w.outline θ).warningsDue r := by
  induction w generalizing text θ ex with
  | leaf name gap pieces =>
      rw [warnings_of_run_leaf hr hw ((executeNested_run _ _).symm.trans h)]
      change _ = (r.unknown (ofOutline (Spelling.leaf name gap pieces).outline θ).measure.toList).map _
      rw [measure_leaf hw θ, Option.toList_some]
  | node k word gap f left g right ihl ihr =>
      obtain ⟨-, ⟨-, hl⟩, -, hrl⟩ := id hw
      obtain ⟨-, hfl, hfr⟩ := Outline.fault?_node.mp hfault
      rw [Spelling.ofOutline_node, plan_ofCompound, ← Spelling.ofOutline_node k word gap,
        executeNested_join] at h
      simp only [bind_eq_ok] at h
      obtain ⟨exl, hexl, exr, hexr, result, hresult, hex⟩ := h
      obtain rfl := Except.ok.inj hex
      change exl.warnings ++ exr.warnings ++ result.warnings = _
      have hdue := warningsDue_node r (Spelling.top k f left g right) left.outline right.outline θ
      refine Eq.trans ?_ hdue.symm
      rw [ihl hl hfl hexl, ihr hrl hfr hexr]
      congr 1
      by_cases hk : (Spelling.top k f left g right).keyword = .add
      · -- the filter has read the full text, which calls the measures that the expression calls
        rw [if_pos hk] at hresult
        obtain ⟨o, hread⟩ := read_of_applyFilter hresult
        have hagain := (read_full_iff hw hfault).mp ⟨o, hread⟩
        rw [if_pos hk, warnings_of_filteringBy (hagain.read_full hw hfault) hresult,
          Spelling.measures_canonical, ← leafMeasures_eq hw θ]
        rfl
      · rw [if_neg hk, applyFilter_filtering] at hresult
        obtain rfl := Except.ok.inj hresult
        rw [if_neg hk]

/-- Whichever measures are registered, a plan that has a result warns of exactly those that are not: once
for each leaf, and once more for each sum above it. It is clean if and only if the measure of every leaf
is registered. -/
theorem executeNested_warnings {start : Registry} (hstart : start = .empty ∨ start = .standard)
    (entries : List (String × Measure)) {s : Specification} (hs : parse text θ = .ok s)
    (h : (ofRegistry sides (start.registerAll entries)).executeNested s.plan = .ok ex) :
    ex.warnings = s.warningsDue (start.registerAll entries) ∧
      (ex.isClean ↔ ∀ leaf ∈ s.leaves, ∃ name, leaf.measure = some name ∧
        ((start.registerAll entries).measure? name).isSome) := by
  obtain ⟨o, ho, hfault, rfl⟩ := parse_eq_ok.mp hs
  obtain ⟨w, hw, rfl, -⟩ := exists_spelling ho
  have hr (name : String) := (Registry.serves_registerAll hstart entries name).isSome_eq
  have hwarnings := warnings_of_executeNested hr hw hfault h
  refine ⟨hwarnings, ?_⟩
  rw [Execution.isClean, List.isEmpty_iff, hwarnings, warningsDue_eq_nil hw θ, leaves_known_iff hw θ]

/-- A sum in a sum, with one measure that is registered and one that is not. -/
theorem executeNested_warnings_sample :
    let text :=
      "ADD(0.5*ADD(0.5*exactmatch(x.a,y.a)|0,0.5*Soundex(x.b,y.b)|0)|0,0.5*soundex(x.a,y.a)|0)"
    let r := Registry.empty.registerAll [("ExactMatch", .exactMatch)]
    ∃ s ex, parse text 0.5 = .ok s ∧ (ofRegistry sampleSides r).executeNested s.plan = .ok ex ∧
      ex.warnings = [.unresolvedMeasure (some 0) "Soundex", .unresolvedMeasure none "Soundex",
        .unresolvedMeasure (some 0) "soundex", .unresolvedMeasure none "Soundex",
        .unresolvedMeasure none "soundex"] ∧
      ex.warnings = s.warningsDue r ∧
      (ex.isClean ↔ ∀ leaf ∈ s.leaves, ∃ name, leaf.measure = some name ∧
        (r.measure? name).isSome) := by
  intro text r
  have hrun : ((parse text 0.5).toOption.bind fun s =>
      ((ofRegistry sampleSides r).executeNested s.plan).toOption).map (·.warnings) =
        some [.unresolvedMeasure (some 0) "Soundex", .unresolvedMeasure none "Soundex",
          .unresolvedMeasure (some 0) "soundex", .unresolvedMeasure none "Soundex",
          .unresolvedMeasure none "soundex"] := by
    decide +kernel
  cases hs : parse text 0.5 with
  | error fault => simp [hs, Except.toOption] at hrun
  | ok s =>
      cases hex : (ofRegistry sampleSides r).executeNested s.plan with
      | error fault => simp [hs, hex, Except.toOption] at hrun
      | ok ex =>
          simp only [hs, hex, Except.toOption, Option.bind_some, Option.map_some,
            Option.some.injEq] at hrun
          exact ⟨s, ex, rfl, hex, hrun, executeNested_warnings (.inl rfl) _ hs hex⟩

end Engine

end LinkDiscovery
