import LinkDiscovery.Proofs.Execution.Locality
import LinkDiscovery.Proofs.Links.Accumulation
/-!
Results of many plans, joined from left to right. Two of the four operations give other confidences when
they are nested in another way; what all the results together say about a pair is therefore an invariant
of the join from the left.
-/

namespace LinkDiscovery

open Links (IsLargest)
open Score

namespace SetOperation

/-- What an operation makes of the confidences `c :: cs` that a pair has in some results. An
intersection has the pair if all of them do, with the smallest confidence, and a union if one of them
does, with the largest one; a difference has it as the first one does if no other one does; a symmetric
difference has it if an odd number of them do, as the last one of these does. -/
def Joins : SetOperation → Option Float → List (Option Float) → Option Float → Prop
  | .intersection, c, cs, r =>
    (r.isSome ↔ ∀ d ∈ c :: cs, d.isSome) ∧ ∀ x ∈ r, IsLeast { y | some y ∈ c :: cs } x
  | .union, c, cs, r =>
    (r.isSome ↔ ∃ d ∈ c :: cs, d.isSome) ∧ ∀ x ∈ r, IsGreatest { y | some y ∈ c :: cs } x
  | .difference, c, cs, r => r = if cs.any (·.isSome) then none else c
  | .symmetricDifference, c, cs, r =>
    r = if Odd (c :: cs).reduceOption.length then (c :: cs).reduceOption.getLast? else none

variable {o : SetOperation} {c d r : Option Float} {cs : List (Option Float)}

theorem joins_union_iff : union.Joins c cs r ↔ IsLargest { y | some y ∈ c :: cs } r := by
  have hsome : (∃ d ∈ c :: cs, d.isSome) ↔ { y | some y ∈ c :: cs }.Nonempty := by
    constructor
    · rintro ⟨d, hd, hsome⟩
      obtain ⟨x, rfl⟩ := Option.isSome_iff_exists.mp hsome
      exact ⟨x, hd⟩
    · rintro ⟨x, hx⟩
      exact ⟨some x, hx, rfl⟩
  rw [Joins, hsome]
  exact ⟨fun h => ⟨h.1, h.2⟩, fun h => ⟨h.isSome_iff, h.greatest⟩⟩

/-- The confidences that a pair has in one more result. -/
theorem confidences_append (cs : List (Option Float)) (d : Option Float) :
    { y | some y ∈ cs ++ [d] } = { y | some y ∈ cs } ∪ { y | y ∈ d } := by
  ext y
  simp [eq_comm]

/-- A single result stays as it is. -/
theorem joins_nil (hc : ∀ x ∈ c, x.isNaN = false) : o.Joins c [] c := by
  cases o with
  | intersection =>
      refine ⟨by simp, ?_⟩
      rintro x rfl
      refine ⟨by simp, fun y hy => ?_⟩
      obtain rfl : y = x := by simpa using hy
      exact le_self (hc y rfl)
  | union => exact joins_union_iff.mpr (by simpa [eq_comm] using Links.isLargest_self hc)
  | difference => rfl
  | symmetricDifference => cases c <;> rfl

/-- The last one of an odd number of confidences goes, and a confidence after an even number stays. -/
theorem joined_getLast? (l : List Float) (d : Option Float) :
    symmetricDifference.joined (if Odd l.length then l.getLast? else none) d =
      if Odd (l ++ d.toList).length then (l ++ d.toList).getLast? else none := by
  cases d with
  | none =>
      rw [Option.toList_none, List.append_nil]
      cases (if Odd l.length then l.getLast? else none) <;> rfl
  | some y =>
      simp only [Option.toList_some, List.length_append, List.length_singleton, Nat.odd_add_one]
      by_cases hodd : Odd l.length
      · have hne : l ≠ [] := by
          rintro rfl
          simp at hodd
        simp only [hodd, if_true, not_true, if_false, List.getLast?_eq_some_getLast hne, joined]
      · simp only [hodd, if_false, not_false_eq_true, if_true, List.getLast?_concat, joined]

/-- One more result. -/
theorem Joins.append (h : o.Joins c cs r) (hd : ∀ x ∈ d, x.isNaN = false) :
    o.Joins c (cs ++ [d]) (o.joined r d) := by
  cases o with
  | intersection =>
      obtain ⟨hsome, hleast⟩ := h
      have hall : (∀ d' ∈ c :: (cs ++ [d]), d'.isSome) ↔ r.isSome ∧ d.isSome := by
        rw [hsome, ← List.cons_append, List.forall_mem_append, List.forall_mem_singleton]
      have hjoined : (intersection.joined r d).isSome ↔ r.isSome ∧ d.isSome := by
        cases r <;> cases d <;> simp [joined]
      refine ⟨hjoined.trans hall.symm, fun z hz => ?_⟩
      obtain ⟨x, hx, hz⟩ := Option.bind_eq_some_iff.mp hz
      obtain ⟨y, rfl, rfl⟩ := Option.map_eq_some_iff.mp hz
      rw [← List.cons_append, confidences_append]
      refine isLeast_smaller (hleast x hx) ⟨rfl, ?_⟩
      rintro _ ⟨⟩
      exact le_self (hd y rfl)
  | union =>
      rw [joins_union_iff, ← List.cons_append, confidences_append]
      exact (joins_union_iff.mp h).merged (Links.isLargest_self hd)
  | difference =>
      rw [Joins] at h ⊢
      rw [joined, h, List.any_append]
      cases d <;> simp
  | symmetricDifference =>
      rw [Joins] at h ⊢
      rw [← List.cons_append, List.reduceOption_append, List.reduceOption_singleton, h]
      exact joined_getLast? _ d

/-- All results, joined from left to right. -/
theorem joins_foldl (hc : ∀ x ∈ c, x.isNaN = false) (hcs : ∀ d ∈ cs, ∀ x ∈ d, x.isNaN = false) :
    o.Joins c cs (cs.foldl o.joined c) := by
  induction cs using List.reverseRecOn with
  | nil => exact joins_nil hc
  | append_singleton cs d ih =>
      obtain ⟨hcs, hd⟩ := List.forall_mem_append.mp hcs
      rw [List.foldl_append]
      exact (ih hcs).append (hd d List.mem_cons_self)

theorem find?_foldl (m : Links) (ms : List Links) (s t : String) :
    (ms.foldl o.apply m).find? s t =
      (ms.map (·.find? s t)).foldl o.joined (m.find? s t) := by
  induction ms generalizing m with
  | nil => rfl
  | cons n ms ih => rw [List.foldl_cons, ih, find?_apply, List.map_cons, List.foldl_cons]

end SetOperation

/-- The result of a tree of plans with an operation: it joins the links of the results below, and has
their warnings in order. -/
structure Execution.IsJoin (result : Execution) (o : SetOperation) (x : Execution)
    (xs : List Execution) : Prop where
  confidence : ∀ s t,
    o.Joins (x.links.find? s t) (xs.map (·.links.find? s t)) (result.links.find? s t)
  warnings : result.warnings = (x :: xs).flatMap (·.warnings)

namespace Engine

variable {φ : Type} [LinkFilter φ] {e : Engine φ} {o : SetOperation} {is : List Instruction}
  {p : NestedPlan} {ps : List NestedPlan} {x : Execution} {xs : List Execution}

theorem executeAll_ok (h : List.Forall₂ (fun q y => e.executeNested q = .ok y) ps xs) :
    e.executeAll ps = .ok xs := by
  induction h with
  | nil => rfl
  | cons hq _ ih => simp only [executeAll, hq, ih, bind, Except.bind, pure, Except.pure]

/-- Plans are carried out up to the first one that fails. -/
theorem executeAll_error {before after : List NestedPlan} {q : NestedPlan} {fault : Execution.Fault}
    (hbefore : ∀ p ∈ before, ∃ x, e.executeNested p = .ok x)
    (hq : e.executeNested q = .error fault) :
    e.executeAll (before ++ q :: after) = .error fault := by
  induction before with
  | nil => simp only [List.nil_append, executeAll, hq, bind, Except.bind]
  | cons p before ih =>
      obtain ⟨⟨x, hx⟩, hbefore⟩ := List.forall_mem_cons.mp hbefore
      simp only [List.cons_append, executeAll, hx, ih hbefore, bind, Except.bind]

theorem executeNested_of_error {fault : Execution.Fault}
    (h : e.executeAll (p :: ps) = .error fault) (f : Option Instruction) :
    e.executeNested (.node is (p :: ps) (some o) f) = .error fault := by
  simp only [executeAll, bind, Except.bind, pure, Except.pure] at h
  simp only [executeNested, bind, Except.bind, Option.isNone_some, Bool.false_and,
    Bool.false_eq_true, if_false]
  cases hp : e.executeNested p with
  | error fault' => simpa [hp] using h
  | ok x => cases hps : e.executeAll ps <;> simp_all

theorem executeNested_of_ok (hp : e.executeNested p = .ok x) (hps : e.executeAll ps = .ok xs)
    (f : Option Instruction) :
    e.executeNested (.node is (p :: ps) (some o) f) =
      (e.filterJoined f ((xs.map (·.links)).foldl o.apply x.links)).map fun result =>
        { links := result.links
          warnings := (x :: xs).flatMap (·.warnings) ++ result.warnings } := by
  simp only [executeNested, hp, hps, bind, Except.bind, Option.isNone_some, Bool.false_and,
    Bool.false_eq_true, if_false, join]
  cases e.filterJoined f _ <;> simp [Except.map, pure, Except.pure]

/-- A tree of plans with an operation joins the results of all plans below it at once. A filter without an
expression keeps the links of the join that reach its threshold, if this is how the engine filters by a
threshold. If plans below fail, the tree fails as the first of them does. -/
theorem executeNested_fold :
    (∀ x xs, e.executeNested p = .ok x →
      List.Forall₂ (fun q y => e.executeNested q = .ok y) ps xs →
      (∀ y ∈ x :: xs, y.links.Numeric) →
        ∃ result, e.executeNested (.node is (p :: ps) (some o) none) = .ok result ∧
          result.IsJoin o x xs ∧
          ∀ f threshold, f.threshold = some threshold → f.expression = none →
            (∀ m, LinkFilter.atLeast e.filterRegistry m threshold = m.atLeast threshold) →
              e.executeNested (.node is (p :: ps) (some o) (some f)) =
                .ok { result with links := result.links.atLeast threshold }) ∧
      ∀ before q after fault, p :: ps = before ++ q :: after →
        (∀ q ∈ before, ∃ y, e.executeNested q = .ok y) → e.executeNested q = .error fault →
          ∀ f, e.executeNested (.node is (p :: ps) (some o) f) = .error fault := by
  constructor
  · intro x xs hp hps hnumeric
    obtain ⟨hx, hxs⟩ := List.forall_mem_cons.mp hnumeric
    have hrun (f : Option Instruction) : e.executeNested (.node is (p :: ps) (some o) f) = _ :=
      executeNested_of_ok hp (executeAll_ok hps) f
    refine ⟨_, hrun none, ⟨fun s t => ?_, List.append_nil _⟩, ?_⟩
    · rw [SetOperation.find?_foldl, List.map_map]
      refine SetOperation.joins_foldl (hx s t) ?_
      rintro _ hd
      obtain ⟨y, hy, rfl⟩ := List.mem_map.mp hd
      exact hxs y hy s t
    · intro f threshold hthreshold hexpression hfilter
      rw [hrun (some f)]
      simp [filterJoined, applyFilter, hthreshold, hexpression, hfilter, Except.map]
  · intro before q after fault hsplit hbefore hq f
    refine executeNested_of_error ?_ f
    rw [hsplit]
    exact executeAll_error hbefore hq

/-- What a run that compares one property links at a threshold of one half. -/
def sampleResult (m : Measure) (property : String) : Execution where
  links := Links.ofList (Mapper.pairsAtLeast sampleSides (m.score property property) 0.5)

theorem executeNested_sampleResult {text : String} {m : Measure} {property : String}
    (hread : (Comparison.read text "x" "y").toOption = some ⟨m.name, property, property⟩)
    (hm : Registry.standard.mapper? m.name = some (.pairwise m)) :
    (standard sampleSides).executeNested (.atomic [.run text 0.5]) =
      .ok (sampleResult m property) := by
  rw [execute_run (e := standard sampleSides) (toOption_eq_some.mp hread) hm]
  rfl

/-- Three runs that all link one pair, and three plans of which the last two fail. -/
theorem executeNested_fold_sample :
    let e := standard sampleSides
    let run (text : String) := NestedPlan.atomic [.run text 0.5]
    let fails (c : Command) := NestedPlan.atomic [{ command := c }]
    let p := run "exactmatch(x.a,y.a)"
    let ps := [run "levenshtein(x.a,y.a)", run "levenshtein(x.b,y.b)"]
    (∃ (x : Execution) (xs : List Execution) (result : Execution), e.executeNested p = .ok x ∧
        List.Forall₂ (fun q y => e.executeNested q = .ok y) ps xs ∧
        result.IsJoin .symmetricDifference x xs ∧ result.links.contains "s" "t" ∧
        e.executeNested (.node [] (p :: ps) (some .symmetricDifference) (some (.filtering 0.75))) =
          .ok { result with links := result.links.atLeast 0.75 }) ∧
      e.executeNested (.node [] [p, fails .filter, fails .run] (some .union) none) =
        .error (.missingOperand .filter 0 .source) := by
  intro e run fails p ps
  have hp : e.executeNested p = .ok (sampleResult .exactMatch "a") :=
    executeNested_sampleResult (by decide +kernel) rfl
  have hps : List.Forall₂ (fun q y => e.executeNested q = .ok y) ps
      [sampleResult .levenshtein "a", sampleResult .levenshtein "b"] :=
    .cons (executeNested_sampleResult (by decide +kernel) rfl)
      (.cons (executeNested_sampleResult (by decide +kernel) rfl) .nil)
  have hnumeric : ∀ y ∈ [sampleResult .exactMatch "a", sampleResult .levenshtein "a",
      sampleResult .levenshtein "b"], y.links.Numeric := by
    simp only [List.forall_mem_cons, sampleResult]
    refine ⟨.ofList ?_, .ofList ?_, .ofList ?_, by simp⟩
    all_goals decide +kernel
  obtain ⟨result, -, hjoin, hfilter⟩ :=
    (@executeNested_fold _ _ e .symmetricDifference [] p ps).1 _ _ hp hps hnumeric
  refine ⟨⟨_, _, result, hp, hps, hjoin, ?_, hfilter _ _ rfl rfl fun _ => rfl⟩, ?_⟩
  · have hconfidence := hjoin.confidence "s" "t"
    rw [SetOperation.Joins] at hconfidence
    rw [Links.contains, hconfidence]
    decide +kernel
  · exact executeNested_fold.2 [p] (fails .filter) [fails .run] _ rfl
      (List.forall_mem_singleton.mpr ⟨_, hp⟩) rfl none

end Engine

end LinkDiscovery
