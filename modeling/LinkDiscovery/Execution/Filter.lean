import LinkDiscovery.Links.Selection
import LinkDiscovery.Measure.Scorer
/-!
Scoring links anew by an expression, and what filters links.
-/

namespace LinkDiscovery

/-- The confidence that a link keeps when its pair has a new score. Without a main threshold it is
the score; with one it is the smaller one of confidence and score, and has to reach that
threshold. -/
def Link.rescored (l : Link) (score threshold : Float) (mainThreshold : Option Float) :
    Option Float :=
  if score < threshold then none
  else
    match mainThreshold with
    | none => some score
    | some main =>
      let smaller := Score.smaller l.confidence score
      if main ≤ smaller then some smaller else none

namespace Links

/-- Scores links anew and keeps those that reach the thresholds. Links of entities that are not in
the collections go. -/
def rescore (m : Links) (sides : Sides) (scorer : Scorer) (threshold : Float)
    (mainThreshold : Option Float) : Links :=
  m.select fun l =>
    match sides.source.find? l.source, sides.target.find? l.target with
    | some s, some t => l.rescored (scorer.score s t) threshold mainThreshold
    | _, _ => none

/-- Scores links anew by an expression. -/
def rescoreBy (m : Links) (registry : Registry) (sides : Sides) (text : String)
    (threshold : Float) (mainThreshold : Option Float) : Except Failure Links :=
  match registry.compile text sides.sourceVar sides.targetVar with
  | .error fault =>
    .error { text := s!"compiling filter expression `{text}`", causes := [fault.message] }
  | .ok scorer => .ok (m.rescore sides scorer threshold mainThreshold)

end Links

/-- What filters links: by a threshold, or by an expression that scores them anew. -/
class LinkFilter (φ : Type) where
  atLeast : φ → Links → Float → Links
  rescoreBy : φ → Links → Sides → String → Float → Option Float → Except Failure Links

/-- A registry filters links one by one. -/
instance : LinkFilter Registry where
  atLeast _ links threshold := links.atLeast threshold
  rescoreBy registry links sides text threshold mainThreshold :=
    links.rescoreBy registry sides text threshold mainThreshold

namespace LinkFilter

@[simp]
theorem atLeast_registry (registry : Registry) (links : Links) (threshold : Float) :
    atLeast registry links threshold = links.atLeast threshold :=
  rfl

@[simp]
theorem rescoreBy_registry (registry : Registry) (links : Links) (sides : Sides) (text : String)
    (threshold : Float) (mainThreshold : Option Float) :
    rescoreBy registry links sides text threshold mainThreshold =
      links.rescoreBy registry sides text threshold mainThreshold :=
  rfl

end LinkFilter

end LinkDiscovery
