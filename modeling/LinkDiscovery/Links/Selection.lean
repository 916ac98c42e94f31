import LinkDiscovery.Links.Basic
import LinkDiscovery.Score
/-!
Choosing links by their confidence, and changing confidences one by one.
-/

namespace LinkDiscovery.Links

/-- The links that reach a threshold. -/
def atLeast (m : Links) (threshold : Float) : Links :=
  m.select fun l => if threshold ≤ l.confidence then some l.confidence else none

/-- The links that are accepted, and those left for review because they reach only the second
threshold. -/
def split (m : Links) (acceptance verification : Float) : Links × Links :=
  (m.atLeast acceptance,
    m.select fun l =>
      if acceptance ≤ l.confidence then none
      else if verification ≤ l.confidence then some l.confidence
      else none)

/-- The largest confidence of a source; none if it has no links. -/
def best? (m : Links) (source : String) : Option Float :=
  match (m.rows.getD source ∅).values with
  | [] => none
  | c :: cs => some (cs.foldl Score.larger c)

/-- The links with the largest confidence of their source; there may be several for one source. -/
def bestTargets (m : Links) : Links :=
  m.select fun l => if m.best? l.source == some l.confidence then some l.confidence else none

/-- The links with source and target exchanged. -/
def reverse (m : Links) : Links :=
  m.links.foldl (fun out l => out.add l.target l.source l.confidence) (withPredicate m.predicate)

/-- The links that are best for their source and then, among these, best for their target. -/
def bestPairs (m : Links) : Links :=
  m.bestTargets.reverse.bestTargets.reverse

/-- Divides all confidences; dividing by zero changes nothing. -/
def scale (m : Links) (divisor : Float) : Links :=
  if divisor == 0 then m else m.select fun l => some (l.confidence / divisor)

/-- Lowers confidences above one to one. -/
def clamp (m : Links) : Links :=
  m.select fun l => some (Score.smaller l.confidence 1)

end LinkDiscovery.Links
