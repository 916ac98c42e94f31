import LinkDiscovery.Measure.Basic
import LinkDiscovery.Measure.EditDistance
import LinkDiscovery.Text.Blank
import LinkDiscovery.Text.LowerCase
/-!
The measures that are always known. Each of them is between zero and one.
-/

namespace LinkDiscovery.Measure

/-- The members of the first list that are in the second as well. -/
def shared {α : Type} [BEq α] (as bs : List α) : Nat :=
  (as.filter bs.contains).length

/-- One for the same text, zero otherwise. -/
def exactMatch : Measure where
  name := "exactmatch"
  similarity a b := if a == b then 1 else 0

/-- The different words of a text in small letters. -/
def wordSet (text : String) : List (List Char) :=
  ((Text.words text).map Text.lowerCase).eraseDups

/-- The number of words in both texts over the number of words in either. -/
def jaccard : Measure where
  name := "jaccard"
  similarity a b :=
    let as := wordSet a
    let bs := wordSet b
    let all := as.length + bs.length - shared as bs
    if all = 0 then 0 else (shared as bs).toFloat / all.toFloat

/-- Three neighbouring characters, from left to right. -/
def windows : List Char → List (Char × Char × Char)
  | a :: b :: c :: rest => (a, b, c) :: windows (b :: c :: rest)
  | _ => []

/-- The different trigrams of a text in small letters with two blanks on either side. A blank text
has none. -/
def trigramSet (text : String) : List (Char × Char × Char) :=
  match Text.lowerCase (Text.trimChars text.toList) with
  | [] => []
  | lowered => (windows ([' ', ' '] ++ lowered ++ [' ', ' '])).eraseDups

/-- Twice the number of trigrams in both texts over the numbers of both texts together. -/
def trigrams : Measure where
  name := "trigrams"
  similarity a b :=
    let as := trigramSet a
    let bs := trigramSet b
    let total := as.length + bs.length
    if total = 0 then 0 else 2 * (shared as bs).toFloat / total.toFloat

/-- One less the edit distance over the length of the longer text. Two empty texts are alike. -/
def levenshtein : Measure where
  name := "levenshtein"
  similarity a b :=
    let longest := max a.length b.length
    if longest = 0 then 1
    else 1 - (editDistance a.toList b.toList).toFloat / longest.toFloat

end LinkDiscovery.Measure
