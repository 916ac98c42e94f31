import LinkDiscovery.Links.Basic
import LinkDiscovery.Score
/-!
Set operations on links. A pair that both sides link takes the larger confidence in a union and the
smaller one in an intersection.
-/

namespace LinkDiscovery.Links

/-- The links of both sides. -/
def union (m other : Links) : Links :=
  other.rows.foldl (fun out source row => out.addRow source row) m

/-- The pairs that both sides link. -/
def intersection (m other : Links) : Links :=
  m.select fun l => (other.find? l.source l.target).map (Score.smaller l.confidence)

/-- The links of the first side whose pairs the second does not link. -/
def difference (m other : Links) : Links :=
  m.select fun l => if other.contains l.source l.target then none else some l.confidence

/-- The links of pairs that only one side links. -/
def symmetricDifference (m other : Links) : Links :=
  (m.difference other).union (other.difference m)

end LinkDiscovery.Links
