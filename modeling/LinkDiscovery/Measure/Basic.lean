import LinkDiscovery.Score
import Std.Data.ExtTreeSet
/-!
Measures of similarity. A measure scores two texts and two sets of texts. Unless it says otherwise, two
sets score as their most similar members do.
-/

namespace LinkDiscovery

/-- A score for two texts. -/
abbrev Similarity := String → String → Float

namespace Similarity

/-- The largest score of some pairs, or `best` if that is larger. A score of one ends the search. -/
def bestOf (similarity : Similarity) (best : Float) : List (String × String) → Float
  | [] => best
  | (a, b) :: rest =>
    let best := Score.larger best (similarity a b)
    if 1 ≤ best then best else similarity.bestOf best rest

/-- The score of the most similar members of two sets; zero if one is empty. -/
def ofSets (similarity : Similarity) (as bs : Std.ExtTreeSet String) : Float :=
  similarity.bestOf 0 (as.toList.flatMap fun a => bs.toList.map fun b => (a, b))

end Similarity

/-- A similarity of texts and one of sets of texts, with the name that they go by. -/
structure Measure where
  name : String
  similarity : Similarity
  setSimilarity : Std.ExtTreeSet String → Std.ExtTreeSet String → Float := similarity.ofSets

end LinkDiscovery
