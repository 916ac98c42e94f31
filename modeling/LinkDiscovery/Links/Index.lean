import LinkDiscovery.Links.Basic
import LinkDiscovery.Score
import Std.Data.ExtTreeSet
/-!
Links arranged by their confidence: each confidence leads to the pairs that have exactly it.
-/

namespace LinkDiscovery.Links

/-- The order of all doubles is transitive, as that of their places is. -/
instance : Std.TransCmp (compareOn Score.rank) :=
  inferInstance

/-- Sources and targets for each confidence; confidences stand in the order of all doubles. -/
abbrev Index :=
  Std.ExtTreeMap Float (Std.ExtTreeMap String (Std.ExtTreeSet String)) (compareOn Score.rank)

/-- Adds a link to an index. -/
def Index.add (index : Index) (l : Link) : Index :=
  let sources := index.getD l.confidence ∅
  index.insert l.confidence
    (sources.insert l.source ((sources.getD l.source ∅).insert l.target))

/-- The index of all links. -/
def index (m : Links) : Index :=
  m.links.foldl Index.add ∅

end LinkDiscovery.Links
