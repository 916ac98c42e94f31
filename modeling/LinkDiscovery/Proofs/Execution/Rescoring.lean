import LinkDiscovery.Proofs.Execution.Outcomes
import LinkDiscovery.Proofs.Execution.Registered
import LinkDiscovery.Proofs.Execution.Review
import LinkDiscovery.Proofs.Grammar.Levels
import LinkDiscovery.Proofs.Links.Cuts
/-!
Scoring links anew. A filter with two thresholds comes to scoring the links anew at the first one, joining
them with what they were, and cutting at the second one. What a run has scored, a filter by the same call
scores alike, so that it only cuts.
-/

namespace LinkDiscovery

open Score

/-- The second threshold is one for the smaller one of confidence and score. -/
theorem Link.rescored_main (l : Link) (score threshold main : Float) :
    l.rescored score threshold (some main) =
      (l.rescored score threshold none).bind fun score => reached main (smaller l.confidence score) := by
  unfold rescored
  split
  · rfl
  · rfl

/-- A score that a pair has been kept with is kept if it reaches the other threshold as well. -/
theorem reached_bind_rescored {t u : Float} (ht : t.isNaN = false) (hu : u.isNaN = false)
    (score : Float) :
    ((reached t score).bind fun _ => if score < u then none else some score) =
      reached (larger t u) score := by
  have hboth := larger_le_iff (c := score) ht hu
  by_cases hscore : t ≤ score
  · have hlt := not_lt (number_of_le_right hscore) hu
    rw [reached_self hscore, Option.bind_some]
    split
    · rename_i hbelow
      exact (reached_below fun hle => hlt.mpr (hboth.mp hle).2 hbelow).symm
    · rename_i hnot
      exact (reached_self (hboth.mpr ⟨hscore, hlt.mp hnot⟩)).symm
  · rw [reached_below hscore, Option.bind_none, reached_below fun hle => hscore (hboth.mp hle).1]

namespace Links

variable {sides : Sides} {scorer : Scorer} {t u main : Float}

@[simp]
theorem predicate_rescore (m : Links) (sides : Sides) (scorer : Scorer) (t : Float)
    (main : Option Float) : (m.rescore sides scorer t main).predicate = m.predicate :=
  predicate_select ..

theorem regular_rescore (m : Links) (sides : Sides) (scorer : Scorer) (t : Float)
    (main : Option Float) : (m.rescore sides scorer t main).Regular :=
  regular_select m _

/-- Scoring with two thresholds, in three steps. -/
theorem rescore_main (m : Links) (sides : Sides) (scorer : Scorer) (t main : Float) :
    m.rescore sides scorer t (some main) =
      (m.intersection (m.rescore sides scorer t none)).atLeast main := by
  refine (m.regular_rescore sides scorer t _).ext (regular_atLeast _ _) (by simp) fun source target => ?_
  rw [find?_atLeast, find?_intersection, find?_rescored, find?_rescored]
  cases hlink : m.find? source target with
  | none => rfl
  | some c =>
      simp only [Option.bind_some, Option.bind_map, Sides.onPair_bind, Link.rescored_main]
      rfl

/-- Scoring anew a second time changes nothing. -/
theorem rescore_rescore (m : Links) (sides : Sides) (scorer : Scorer) (t : Float) :
    (m.rescore sides scorer t none).rescore sides scorer t none = m.rescore sides scorer t none := by
  refine (regular_rescore _ _ _ _ _).ext (regular_rescore _ _ _ _ _) (by simp) fun source target => ?_
  rw [find?_rescore, find?_rescore, Option.bind_assoc]
  refine Option.bind_congr fun c _ => ?_
  rw [Sides.onPair_bind_onPair]
  congr 1
  funext a b
  split <;> simp [*]

/-- For every expression whose measures are all known, scoring links anew with two thresholds comes to
joining them with the links that are scored anew with the first one, and cutting at the second one; and
links that are scored anew stay as they are when they are scored once more. -/
theorem rescoreBy_composed {r : Registry} {text : String}
    (hcompile : r.compile text sides.sourceVar sides.targetVar = .ok scorer) (m : Links)
    (t main : Float) :
    ∃ kept, m.rescoreBy r sides text t none = .ok kept ∧
      m.rescoreBy r sides text t (some main) = .ok ((m.intersection kept).atLeast main) ∧
        kept.rescoreBy r sides text t none = .ok kept := by
  refine ⟨m.rescore sides scorer t none, ?_, ?_, ?_⟩
  · simp only [rescoreBy, hcompile]
  · simp only [rescoreBy, hcompile, rescore_main]
  · simp only [rescoreBy, hcompile, rescore_rescore]

/-- A sum that scores above one, links with confidences on both sides of the second threshold, and a link
of an entity that is not known. -/
theorem rescoreBy_composed_sample :
    let text := "ADD(2*exactmatch(x.a,y.a)|0, 0.5*exactmatch(x.b,y.b)|0)"
    let m := (ofList [⟨"s", "t", 0.875⟩, ⟨"s", "u", 1⟩]).setPredicate "p"
    ∃ scorer kept, Registry.standard.compile text "x" "y" = .ok scorer ∧
      m.rescoreBy .standard Engine.sampleSides text 0.5 none = .ok kept ∧
        kept.find? "s" "t" = some 2 ∧
        m.rescoreBy .standard Engine.sampleSides text 0.5 (some 0.75) =
          .ok ((m.intersection kept).atLeast 0.75) ∧
          kept.rescoreBy .standard Engine.sampleSides text 0.5 none = .ok kept := by
  intro text m
  have hreads : (Registry.standard.compile text Engine.sampleSides.sourceVar
      Engine.sampleSides.targetVar).toOption.isSome = true := by
    decide +kernel
  obtain ⟨scorer, hsome⟩ := Option.isSome_iff_exists.mp hreads
  have hscorer := toOption_eq_some.mp hsome
  obtain ⟨kept, hkept, hmain, hagain⟩ := rescoreBy_composed hscorer m 0.5 0.75
  have hscore : ((m.rescoreBy .standard Engine.sampleSides text 0.5 none).toOption.bind
      (·.find? "s" "t")) = some 2 := by
    decide +kernel
  rw [toOption_eq_some.mpr hkept] at hscore
  exact ⟨scorer, kept, hscorer, hkept, hscore, hmain, hagain⟩

end Links

/-! Runs and filters by the same call. -/

namespace Mapper

variable {sides : Sides} {score : Entity → Entity → Float} {t u : Float}

/-- The links between all pairs hold the pairs that reach the threshold, each with its score. -/
theorem mem_links_pairsAtLeast (h : sides.Keyed) {l : Link} :
    l ∈ (Links.ofList (pairsAtLeast sides score t)).links ↔
      ∃ a b, sides.source.find? l.source = some a ∧ sides.target.find? l.target = some b ∧
        l.confidence = score a b ∧ t ≤ score a b := by
  rw [Links.mem_links, find?_pairsAtLeast h]
  simp only [Sides.onPair, Option.bind_eq_some_iff, reached, Option.ite_none_right_eq_some,
    Option.some.injEq]
  constructor
  · rintro ⟨a, ha, b, hb, hle, hc⟩
    exact ⟨a, b, ha, hb, hc.symm, hle⟩
  · rintro ⟨a, b, ha, hb, hc, hle⟩
    exact ⟨a, ha, b, hb, hle, hc.symm⟩

/-- A filter by the scores that links have been found with is a run with the larger threshold. -/
theorem rescore_pairsAtLeast (h : sides.Keyed) (ht : t.isNaN = false) (hu : u.isNaN = false)
    {scorer : Scorer} (hscorer : ∀ a b, scorer.score a b = score a b) :
    (Links.ofList (pairsAtLeast sides score t)).rescore sides scorer u none =
      Links.ofList (pairsAtLeast sides score (larger t u)) := by
  refine (Links.regular_rescore _ _ _ _ _).ext (Links.regular_ofList _) ?_ fun source target => ?_
  · rw [Links.predicate_rescore, Links.ofList, Links.ofList, Links.predicate_addAll,
      Links.predicate_addAll]
  · rw [Links.find?_rescore, find?_pairsAtLeast h, find?_pairsAtLeast h, Sides.onPair_bind_onPair]
    simp only [hscorer, reached_bind_rescored ht hu]

end Mapper

namespace Registry

variable {r : Registry} {sides : Sides} {text : String} {call : Call} {m : Measure}

/-- A call of a known measure is run and compiled as the same comparison. -/
theorem exists_comparison (hcall : Expression.read text = .ok (.call call))
    (hlength : call.arguments.length = 2) (hm : r.measure? call.measure = some m) (sides : Sides) :
    ∃ p q, r.compile text sides.sourceVar sides.targetVar = .ok (.comparison m p q) ∧
      ∀ θ, (Mapper.pairwise m).run sides text θ =
        .ok (Links.ofList (Mapper.pairsAtLeast sides (m.score p q) θ)) := by
  obtain ⟨spelling, ho⟩ := Expression.read_eq_call.mp hcall
  obtain ⟨first, second, harguments⟩ := List.length_eq_two.mp hlength
  have hread := Comparison.read_leaf ho harguments sides.sourceVar sides.targetVar
  have hresolve : r.resolve sides.sourceVar sides.targetVar (Text.trim text) (.leaf spelling call) =
      .ok (.comparison m (Path.property first sides.sourceVar)
        (Path.property second sides.targetVar)) :=
    resolve_leaf.mpr ⟨first, second, m, harguments, hm, rfl⟩
  refine ⟨_, _, (compile_read ho hresolve).1, fun θ => ?_⟩
  simp only [Mapper.run, hread]

/-- For a call of a standard measure with two arguments, the run at a threshold links the pairs of known
entities that reach it, once each and with the score of the call; and a filter of these links by the same
call gives the links of the run at the larger one of both thresholds. -/
theorem standard_run_rescored (hsides : sides.Keyed)
    (hcall : Expression.read text = .ok (.call call)) (hlength : call.arguments.length = 2)
    (hknown : (standard.measure? call.measure).isSome) {t u : Float} (ht : t.isNaN = false)
    (hu : u.isNaN = false) :
    ∃ m scorer links, standard.mapper? call.measure = some (.pairwise m) ∧
      standard.compile text sides.sourceVar sides.targetVar = .ok scorer ∧
      (Mapper.pairwise m).run sides text t = .ok links ∧
      (∀ l ∈ links.links, ∃ a b, sides.source.find? l.source = some a ∧
        sides.target.find? l.target = some b ∧ l.confidence = scorer.score a b) ∧
      (∀ s s' a b, sides.source.find? s = some a → sides.target.find? s' = some b →
        t ≤ scorer.score a b → links.pairs.count (s, s') = 1) ∧
      ∃ links', links.rescoreBy standard sides text u none = .ok links' ∧
        (Mapper.pairwise m).run sides text (larger t u) = .ok links' := by
  obtain ⟨m, hm⟩ := Option.isSome_iff_exists.mp hknown
  obtain ⟨p, q, hcompile, hrun⟩ := exists_comparison hcall hlength hm sides
  have hmapper := standard_pairwise call.measure
  rw [hm, Option.map_some] at hmapper
  refine ⟨m, _, _, hmapper, hcompile, hrun t, fun l hl => ?_, fun s s' a b ha hb hle => ?_, _, ?_,
    hrun (larger t u)⟩
  · obtain ⟨a, b, ha, hb, hc, -⟩ := (Mapper.mem_links_pairsAtLeast hsides).mp hl
    exact ⟨a, b, ha, hb, hc⟩
  · refine List.count_eq_one_of_mem (Links.pairs_nodup _) (List.mem_map.mpr ?_)
    exact ⟨⟨s, s', m.score p q a b⟩,
      (Mapper.mem_links_pairsAtLeast hsides).mpr ⟨a, b, ha, hb, rfl, hle⟩, rfl⟩
  · rw [Links.rescoreBy, hcompile]
    exact congrArg Except.ok (Mapper.rescore_pairsAtLeast hsides ht hu fun _ _ => rfl)

/-- Entities with several values and without any, at a threshold that all pairs reach. -/
theorem standard_run_rescored_sample :
    let sides : Sides := {
      source := .ofList [((Entity.ofUri "s").addProperty "a" "one").addProperty "a" "two", .ofUri "r"]
      target := .ofList [((Entity.ofUri "t").addProperty "a" "two").addProperty "a" "three"]
      sourceVar := "?x"
      targetVar := "y" }
    let text := " ExactMatch (x.a, ?y.a) "
    let call : Call := { measure := "ExactMatch", arguments := ["x.a", "?y.a"] }
    sides.Keyed ∧ Expression.read text = .ok (.call call) ∧
      (standard.measure? call.measure).isSome ∧
      ∃ m scorer links, standard.mapper? call.measure = some (.pairwise m) ∧
        standard.compile text "?x" "y" = .ok scorer ∧
        (Mapper.pairwise m).run sides text (-1) = .ok links ∧
        (∀ l ∈ links.links, ∃ a b, sides.source.find? l.source = some a ∧
          sides.target.find? l.target = some b ∧ l.confidence = scorer.score a b) ∧
        links.pairs.count ("s", "t") = 1 ∧ links.pairs.count ("r", "t") = 1 ∧
        ∃ links', links.rescoreBy standard sides text 0.5 none = .ok links' ∧
          (Mapper.pairwise m).run sides text (larger (-1) 0.5) = .ok links' := by
  intro sides text call
  have hsides : sides.Keyed := ⟨Collection.keyed_ofList _, Collection.keyed_ofList _⟩
  have hread : (Expression.read text).toOption.any (· == .call call) = true := by decide +kernel
  obtain ⟨e, hsome, he⟩ := (Option.any_eq_true _ _).mp hread
  have hcall : Expression.read text = .ok (.call call) := by
    cases e with
    | call call' =>
        have hsame : call' = call := eq_of_beq he
        rw [toOption_eq_some.mp hsome, hsame]
    | compound c => cases he
  obtain ⟨m, scorer, links, hmapper, hcompile, hrun, hscores, honce, hfilter⟩ :=
    standard_run_rescored hsides hcall rfl (by decide) (t := -1) (u := 0.5) rfl rfl
  have hlow (a b : Entity) : -1 ≤ scorer.score a b :=
    le_trans (by decide) (score_nonneg_of_compile standard_takesBestPairs hcompile a b)
  refine ⟨hsides, hcall, by decide, m, scorer, links, hmapper, hcompile, hrun, hscores, ?_, ?_, hfilter⟩
  · exact honce "s" "t" _ _ rfl rfl (hlow _ _)
  · exact honce "r" "t" _ _ rfl rfl (hlow _ _)

end Registry

end LinkDiscovery
