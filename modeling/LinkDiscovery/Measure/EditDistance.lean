/-!
Edit distance: the least number of insertions, deletions and substitutions of single characters that
turn one text into another. The distances from a text to all beginnings of `bs` form a row; one more
character of the text leads from one row to the next.
-/

namespace LinkDiscovery.Measure

/-- Goes on with the next row, given its entry to the left and the entry above that. -/
def extendRow (a : Char) (left corner : Nat) : List Char → List Nat → List Nat
  | b :: bs, above :: rest =>
    let distance := min (min (corner + if a = b then 0 else 1) (above + 1)) (left + 1)
    distance :: extendRow a distance above bs rest
  | _, _ => []

/-- The row after one more character. -/
def nextRow (bs : List Char) (row : List Nat) (a : Char) : List Nat :=
  match row with
  | [] => []
  | corner :: rest => (corner + 1) :: extendRow a (corner + 1) corner bs rest

/-- The number of edits between two texts. -/
def editDistance (as bs : List Char) : Nat :=
  (as.foldl (nextRow bs) (List.range (bs.length + 1))).getLastD 0

end LinkDiscovery.Measure
