import LinkDiscovery.Links.Basic
import LinkDiscovery.Measure.Comparison
import LinkDiscovery.Measure.Strings
import LinkDiscovery.Text.Letters
/-!
Registries of measures and mappers. A measure scores single pairs; a mapper finds all pairs of two
collections that reach a threshold. Names do not depend on the case of letters.
-/

namespace LinkDiscovery

/-- Why something failed: what was being done, then the causes down to the first one. -/
structure Failure where
  text : String
  causes : List String
  deriving DecidableEq

/-- All texts of a failure, the outermost first. -/
def Failure.chain (f : Failure) : List String :=
  f.text :: f.causes

/-- Finds the pairs that reach a threshold. -/
inductive Mapper where
  /-- Scores every pair with a measure. -/
  | pairwise (measure : Measure)
  /-- Finds the pairs in a way of its own. -/
  | dedicated (find : Sides → String → Float → Except Failure Links)

namespace Mapper

/-- All pairs of two collections that reach a threshold. -/
def pairsAtLeast (sides : Sides) (score : Entity → Entity → Float) (threshold : Float) :
    List Link :=
  sides.source.toList.flatMap fun s =>
    sides.target.toList.filterMap fun t =>
      let c := score s t
      if threshold ≤ c then some { source := s.uri, target := t.uri, confidence := c } else none

/-- The links of two collections by the expression `text`. -/
def run (mapper : Mapper) (sides : Sides) (text : String) (threshold : Float) :
    Except Failure Links :=
  match mapper with
  | .dedicated find => find sides text threshold
  | .pairwise measure =>
    match Comparison.read text sides.sourceVar sides.targetVar with
    | .error fault => .error { text := fault.message, causes := [] }
    | .ok c =>
      .ok (Links.ofList
        (pairsAtLeast sides (measure.score c.sourceProperty c.targetProperty) threshold))

end Mapper

/-- Measures and mappers by their names in small letters. -/
structure Registry where
  measures : Std.ExtTreeMap String Measure
  mappers : Std.ExtTreeMap String Mapper

namespace Registry

def empty : Registry where
  measures := ∅
  mappers := ∅

/-- Registers a measure under a name. A mapper that the name already has stays; otherwise the
measure serves as one. -/
def registerAs (r : Registry) (name : String) (m : Measure) : Registry :=
  let key := Text.lowerLetters name
  { measures := r.measures.insert key m
    mappers := r.mappers.insertIfNew key (.pairwise m) }

/-- Registers a measure under its own name. -/
def register (r : Registry) (m : Measure) : Registry :=
  r.registerAs m.name m

/-- Registers a mapper under a name. -/
def registerMapper (r : Registry) (name : String) (mapper : Mapper) : Registry :=
  { r with mappers := r.mappers.insert (Text.lowerLetters name) mapper }

/-- The registry of the measures that are always known. -/
def standard : Registry :=
  ((((empty.register .exactMatch).register .jaccard).register .levenshtein).register
    .trigrams).registerAs "trigram" .trigrams

def measure? (r : Registry) (name : String) : Option Measure :=
  r.measures[Text.lowerLetters name]?

def mapper? (r : Registry) (name : String) : Option Mapper :=
  r.mappers[Text.lowerLetters name]?

/-- The names of the measures. -/
def names (r : Registry) : List String :=
  r.measures.keys

/-- The measures called by an expression that are not registered, each as often as it is called. -/
def unresolved (r : Registry) (text : String) : Except Expression.Fault (List String) :=
  return (← Expression.measureNames text).filter fun name => (r.measure? name).isNone

end Registry

end LinkDiscovery
