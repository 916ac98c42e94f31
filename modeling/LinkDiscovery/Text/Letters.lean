/-!
Comparing texts without regard to the case of the letters `A` to `Z`; every other character counts
as itself.
-/

namespace LinkDiscovery.Text

/-- Replaces the letters `A` to `Z` by `a` to `z`. -/
def lowerLetters (text : String) : String :=
  String.ofList (text.toList.map Char.toLower)

/-- Says whether two texts differ at most in the case of the letters `A` to `Z`. -/
def sameLetters (a b : String) : Bool :=
  lowerLetters a == lowerLetters b

/-- The order of two texts with the letters `A` to `Z` read as `a` to `z`. -/
def compareLetters (a b : String) : Ordering :=
  compare (lowerLetters a) (lowerLetters b)

end LinkDiscovery.Text
