import LinkDiscovery.Proofs.Execution.Agreement
/-!
Which measures score under a name. Runs score with the mapper of a name and filters with its measure, and
a measure that is registered is meant to serve as both. It does not where the name was known before: the
name keeps the mapper of the first measure that is registered under it, and has the last one as its
measure, so that a run and a filter by the same expression may score a pair differently. They agree on the
measure exactly if the first one is the last one.
-/

namespace LinkDiscovery

open Grammar

namespace Registry

/-- Registers measures one after another, each under a name. -/
def registerAll (r : Registry) (entries : List (String × Measure)) : Registry :=
  entries.foldl (fun r entry => r.registerAs entry.1 entry.2) r

/-- The measures that are registered under a name: the one that a registry has already, then those of
the entries with this name, whatever the case of its letters. -/
def measuresUnder (r : Registry) (entries : List (String × Measure)) (name : String) : List Measure :=
  (r.measure? name).toList ++
    (entries.filter fun entry => Text.sameLetters entry.1 name).map (·.2)

variable {r : Registry} {name : String} {m : Measure}

theorem measure?_registerAs (r : Registry) (other : String) (m : Measure) :
    (r.registerAs other m).measure? name =
      if Text.sameLetters other name then some m else r.measure? name := by
  simp only [measure?, registerAs, Text.sameLetters, beq_iff_eq, Std.ExtTreeMap.getElem?_insert,
    Std.LawfulEqCmp.compare_eq_iff_eq]

theorem mapper?_registerAs (r : Registry) (other : String) (m : Measure) :
    (r.registerAs other m).mapper? name =
      if Text.sameLetters other name then some ((r.mapper? name).getD (.pairwise m))
      else r.mapper? name := by
  simp only [mapper?, registerAs, Text.sameLetters, beq_iff_eq]
  rw [Std.ExtTreeMap.getElem?_insertIfNew]
  by_cases hsame : Text.lowerLetters other = Text.lowerLetters name
  · by_cases hname : Text.lowerLetters name ∈ r.mappers
    · simp [hsame, hname]
    · simp [hsame, hname]
  · simp [hsame]

theorem measure?_congr (r : Registry) {other : String} (h : Text.sameLetters other name = true) :
    r.measure? other = r.measure? name := by
  simp only [Text.sameLetters, beq_iff_eq] at h
  rw [measure?, measure?, h]

theorem mapper?_congr (r : Registry) {other : String} (h : Text.sameLetters other name = true) :
    r.mapper? other = r.mapper? name := by
  simp only [Text.sameLetters, beq_iff_eq] at h
  rw [mapper?, mapper?, h]

/-- Under a name the first one of some measures maps and the last one scores. -/
structure Serves (r : Registry) (name : String) (ms : List Measure) : Prop where
  mapper : r.mapper? name = ms.head?.map .pairwise
  measure : r.measure? name = ms.getLast?

theorem Pairwise.serves (h : r.Pairwise) (name : String) :
    r.Serves name (r.measure? name).toList := by
  have hname := h name
  cases hm : r.measure? name <;> rw [hm] at hname <;> exact ⟨hname, hm⟩

/-- Registering a measure adds it to those of its name. -/
theorem Serves.registerAs {ms : List Measure} (h : r.Serves name ms) (other : String) (m : Measure) :
    (r.registerAs other m).Serves name
      (ms ++ if Text.sameLetters other name then [m] else []) := by
  obtain ⟨hmapper, hmeasure⟩ := h
  constructor
  · rw [mapper?_registerAs, hmapper]
    cases Text.sameLetters other name <;> cases ms <;> simp
  · rw [measure?_registerAs, hmeasure]
    cases Text.sameLetters other name <;> simp

theorem Serves.registerAll {ms : List Measure} (h : r.Serves name ms)
    (entries : List (String × Measure)) :
    (r.registerAll entries).Serves name
      (ms ++ (entries.filter fun entry => Text.sameLetters entry.1 name).map (·.2)) := by
  induction entries generalizing r ms with
  | nil => simpa [Registry.registerAll] using h
  | cons entry entries ih =>
      have hentries := ih (h.registerAs entry.1 entry.2)
      rw [List.append_assoc] at hentries
      cases hname : Text.sameLetters entry.1 name <;>
        simpa [Registry.registerAll, hname] using hentries

theorem empty_pairwise : empty.Pairwise := fun _ => by
  simp [mapper?, measure?, empty]

/-- The measures that have been registered under a name serve it, one way and the other. -/
theorem serves_registerAll {start : Registry} (hstart : start = .empty ∨ start = .standard)
    (entries : List (String × Measure)) (name : String) :
    (start.registerAll entries).Serves name (start.measuresUnder entries name) := by
  have hpairwise : start.Pairwise := by
    rcases hstart with rfl | rfl
    · exact empty_pairwise
    · exact standard_pairwise
  exact (hpairwise.serves name).registerAll entries

/-- A name has a mapper if and only if it has a measure. -/
theorem Serves.isSome_eq {ms : List Measure} (h : r.Serves name ms) :
    (r.mapper? name).isSome = (r.measure? name).isSome := by
  rw [h.mapper, h.measure]
  cases ms using List.reverseRecOn <;> simp

/-- The mapper of a name scores with the measure of the name exactly if that was the first one to be
registered under it. -/
theorem Serves.mapper_eq_iff {ms : List Measure} (h : r.Serves name ms) :
    r.mapper? name = (r.measure? name).map .pairwise ↔ ms.head? = ms.getLast? := by
  rw [h.mapper, h.measure]
  exact (Option.map_injective fun _ _ => Mapper.pairwise.inj).eq_iff

end Registry

namespace Engine

variable {e : Engine} {text : String}

/-- A run by a text scores every pair with a function, and links the pairs that reach its
threshold. -/
def RunScores (e : Engine) (text : String) (score : Entity → Entity → Float) : Prop :=
  ∀ (i : Instruction) (θ : Float) (position : ℕ), i.expression = some text → i.threshold = some θ →
    ∃ links, e.run i position = .ok { links } ∧
      ∀ s t, links.find? s t = e.sides.onPair s t fun a b => reached θ (score a b)

/-- A filter by a text scores every pair that is linked anew with a function. -/
def FilterScores (e : Engine) (text : String) (score : Entity → Entity → Float) : Prop :=
  ∀ (i : Instruction) (θ : Float) (links : Links) (position : Option ℕ),
    i.expression = some text → i.threshold = some θ →
      ∃ kept, e.applyFilter i links position = .ok { links := kept } ∧
        ∀ s t, kept.find? s t = (links.find? s t).bind fun confidence =>
          e.sides.onPair s t fun a b =>
            (Link.mk s t confidence).rescored (score a b) θ i.mainThreshold

/-- Runs score with the measure of the mapper. -/
theorem runScores_of_mapper (hsides : e.sides.Keyed) {c : Comparison} {m : Measure}
    (hread : Comparison.read text e.sides.sourceVar e.sides.targetVar = .ok c)
    (hm : e.registry.mapper? c.measure = some (.pairwise m)) :
    e.RunScores text (m.score c.sourceProperty c.targetProperty) := by
  intro i θ position htext hθ
  refine ⟨_, ?_, Mapper.find?_pairsAtLeast hsides _ θ⟩
  simp [run, require, htext, hθ, hread, hm, Mapper.run, bind, Except.bind, pure, Except.pure]

/-- Filters score with the measures that are looked up for the text. -/
theorem filterScores_of_compile {scorer : Scorer} (hknown : e.registry.unresolved text = .ok [])
    (hcompile : e.filterRegistry.compile text e.sides.sourceVar e.sides.targetVar = .ok scorer) :
    e.FilterScores text fun a b => scorer.score a b := by
  intro i θ links position htext hθ
  refine ⟨_, ?_, links.find?_rescored e.sides scorer θ i.mainThreshold⟩
  simp [applyFilter, htext, hθ, hknown, Links.rescoreBy, hcompile]

end Engine

/-- The text of a call with two arguments is read as a comparison of two properties. -/
theorem Comparison.read_leaf {text spelling : String} {call : Call}
    (h : Outline.parse text = .ok (.leaf spelling call)) {first second : String}
    (harguments : call.arguments = [first, second]) (sv tv : String) :
    Comparison.read text sv tv =
      .ok {
        measure := call.measure
        sourceProperty := Path.property first sv
        targetProperty := Path.property second tv } := by
  obtain ⟨w, hw, hleaf, hchars⟩ := exists_spelling h
  cases w with
  | node k word gap f left g right => cases hleaf
  | leaf name gap pieces =>
      obtain ⟨-, rfl⟩ := Outline.leaf.inj hleaf
      have hcall := call_found hw []
      rw [List.append_nil] at hcall
      dsimp only at harguments
      simp only [Comparison.read, Call.read, hchars, whole_eq_some.mpr hcall, ofCall, harguments]

namespace Engine

/-- A call with two arguments is run with the mapper of its name, and filters with its measure. -/
theorem leaf_scores {r : Registry} {sides : Sides} (hsides : sides.Keyed) {spelling : String}
    {call : Call} (ho : Outline.parse text = .ok (.leaf spelling call))
    (hlength : call.arguments.length = 2) {mapping scoring : Measure}
    (hmapper : r.mapper? call.measure = some (.pairwise mapping))
    (hmeasure : r.measure? call.measure = some scoring) :
    ∃ p q, (ofRegistry sides r).RunScores text (mapping.score p q) ∧
      (ofRegistry sides r).FilterScores text (scoring.score p q) := by
  obtain ⟨first, second, harguments⟩ := List.length_eq_two.mp hlength
  have hread := Comparison.read_leaf ho harguments sides.sourceVar sides.targetVar
  have hscorer : r.resolve sides.sourceVar sides.targetVar (Text.trim text) (.leaf spelling call) =
      .ok (.comparison scoring (Path.property first sides.sourceVar)
        (Path.property second sides.targetVar)) :=
    Registry.resolve_leaf.mpr ⟨first, second, scoring, harguments, hmeasure, rfl⟩
  obtain ⟨hcompile, hknown⟩ := Registry.compile_read ho hscorer
  have hrun := runScores_of_mapper (e := ofRegistry sides r) hsides hread hmapper
  have hfilter := filterScores_of_compile (e := ofRegistry sides r) hknown hcompile
  refine ⟨Path.property first sides.sourceVar, Path.property second sides.targetVar, ?_, ?_⟩
  · exact hrun
  · exact hfilter

/-- Whether runs and filters by a name, in any case of its letters, score alike. The name has a mapper if
and only if it has a measure, and the mapper scores with this measure if and only if the first measure that
has been registered under the name is the last one as well: the first one scores the runs of calls by the
name, and the last one the filters by such calls. -/
theorem registered_scores {start : Registry} (hstart : start = .empty ∨ start = .standard)
    (entries : List (String × Measure)) (name : String) :
    let r := start.registerAll entries
    let ms := start.measuresUnder entries name
    (r.mapper? name).isSome = (r.measure? name).isSome ∧
      (r.mapper? name = (r.measure? name).map .pairwise ↔ ms.head? = ms.getLast?) ∧
      r.mapper? name = ms.head?.map .pairwise ∧ r.measure? name = ms.getLast? ∧
      ∀ (sides : Sides) (text spelling : String) (call : Call) (first last : Measure),
        sides.Keyed → Outline.parse text = .ok (.leaf spelling call) → call.arguments.length = 2 →
          Text.sameLetters call.measure name = true → ms.head? = some first →
            ms.getLast? = some last →
              ∃ p q, (ofRegistry sides r).RunScores text (first.score p q) ∧
                (ofRegistry sides r).FilterScores text (last.score p q) := by
  intro r ms
  have hserves : r.Serves name ms := Registry.serves_registerAll hstart entries name
  obtain ⟨hmapper, hmeasure⟩ := id hserves
  refine ⟨hserves.isSome_eq, hserves.mapper_eq_iff, hmapper, hmeasure, ?_⟩
  intro sides text spelling call first last hsides ho hlength hname hfirst hlast
  refine leaf_scores hsides ho hlength ?_ ?_
  · rw [r.mapper?_congr hname, hmapper, hfirst, Option.map_some]
  · rw [r.measure?_congr hname, hmeasure, hlast]

theorem registered_scores_sample :
    let r := Registry.standard.registerAll [("ExactMatch", .jaccard)]
    let ms := Registry.standard.measuresUnder [("ExactMatch", .jaccard)] "EXACTMATCH"
    let w := Spelling.leaf "exactmatch".toList [] ["x.a".toList, " y.a".toList]
    ms = [.exactMatch, .jaccard] ∧ (r.mapper? "EXACTMATCH").isSome = (r.measure? "EXACTMATCH").isSome ∧
      r.mapper? "EXACTMATCH" ≠ (r.measure? "EXACTMATCH").map .pairwise ∧
      ∃ p q,
        (ofRegistry sampleSides r).RunScores (String.ofList w.chars) (Measure.exactMatch.score p q) ∧
          (ofRegistry sampleSides r).FilterScores (String.ofList w.chars)
            (Measure.jaccard.score p q) := by
  intro r ms w
  have hms : ms = [.exactMatch, .jaccard] := rfl
  obtain ⟨hsome, hsame, -, -, hscores⟩ :=
    registered_scores (.inr rfl) [("ExactMatch", .jaccard)] "EXACTMATCH"
  have hother : r.mapper? "EXACTMATCH" ≠ (r.measure? "EXACTMATCH").map .pairwise := by
    intro h
    have hname : some "exactmatch" = some "jaccard" := congrArg (Option.map Measure.name) (hsame.mp h)
    exact absurd hname (by decide)
  obtain ⟨-, -, ⟨-, hw⟩, -⟩ := Spelling.sample_writtenOut
    (show Keyword.ofLetters? ['a', 'd', 'd'] = some .add from rfl)
  have ho := (hw.parse_chars 0.5).1
  exact ⟨hms, hsome, hother, hscores sampleSides _ _ _ _ _ sampleSides_keyed ho rfl rfl rfl rfl⟩

/-- The mapper of a name does not always score as its measure does. A name that is registered again keeps
the mapper that the measure before it was given, although no other mapper has been supplied for it. -/
theorem registerAs_again :
    ∃ mapping scoring, let r := Registry.standard.registerAll [("exactmatch", .jaccard)]
      r.mapper? "exactmatch" = some (.pairwise mapping) ∧ r.measure? "exactmatch" = some scoring ∧
        mapping.similarity "ab cd" "ab ce" ≠ scoring.similarity "ab cd" "ab ce" :=
  ⟨.exactMatch, .jaccard, rfl, rfl, by decide +kernel⟩

end Engine

end LinkDiscovery
