/-!
Classes of characters given by ranges of their numbers.
-/

namespace LinkDiscovery.Text

/-- Says whether a character lies in one of the ranges, whose ends belong to them. -/
def inRanges (ranges : List (Nat × Nat)) (c : Char) : Bool :=
  ranges.any fun (first, last) => first ≤ c.toNat && c.toNat ≤ last

end LinkDiscovery.Text
