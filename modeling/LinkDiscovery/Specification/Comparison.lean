import LinkDiscovery.Digest
import LinkDiscovery.Score
import LinkDiscovery.Specification.Basic
import LinkDiscovery.Text.Letters
import Std.Data.ExtTreeSet
/-!
When specifications count as equal, how they are ordered, and a hash that agrees with equality.
Leaves are equal when their texts are, but for the case of letters, and their thresholds are close;
inner nodes are equal when each child of one has an equal child of the other.
-/

namespace LinkDiscovery.Specification

/-- Thresholds of equal leaves are closer than this. -/
def tolerance : Float := 0.001

/-- Equality of leaves. -/
def sameLeaf (a b : Label) : Bool :=
  match a.filter, b.filter with
  | none, none => true
  | some x, some y => Text.sameLetters x y && (a.threshold - b.threshold).abs < tolerance
  | _, _ => false

/-- Says for each column of a table whether one of its rows has a `true` there. -/
def columns : List (List Bool) → List Bool
  | [] => []
  | [row] => row
  | row :: rows => List.zipWith or row (columns rows)

/-- Says whether each row and each column of a table has a `true`. -/
def coversAll (table : List (List Bool)) : Bool :=
  table.all (·.any id) && (columns table).all id

mutual

/-- Equality of specifications: the order and the number of equal children do not matter. -/
def same : Specification → Specification → Bool
  | node l [], node m [] => sameLeaf l m
  | node l (a :: as), node m (b :: bs) =>
    l.operator == m.operator && l.weights.isSome == m.weights.isSome &&
      coversAll ((b :: bs).map (same a) :: sameTable as (b :: bs))
  | _, _ => false

/-- Compares each specification of the first list, one in a row, with each of the second. -/
def sameTable : List Specification → List Specification → List (List Bool)
  | [], _ => []
  | a :: as, bs => bs.map (same a) :: sameTable as bs

end

instance : BEq Specification := ⟨same⟩

/-- The order of two optional texts; no text comes first. -/
def compareTexts : Option String → Option String → Ordering
  | none, none => .eq
  | none, some _ => .lt
  | some _, none => .gt
  | some x, some y => Text.compareLetters x y

/-- The order of leaves: those that ask for something first, then by threshold and text. -/
def compareLeaves (a b : Specification) : Ordering :=
  (Ord.compare b.size a.size).then <|
    if a.isEmpty && b.isEmpty then .eq
    else (Score.compare a.threshold b.threshold).then (compareTexts a.label.filter b.label.filter)

/-- The order of two lists of the same length by their first difference. -/
def compareAll : List Specification → List Specification → Ordering
  | a :: as, b :: bs => (compareLeaves a b).then (compareAll as bs)
  | _, _ => .eq

/-- The place of an optional operator; none comes first. -/
def operatorRank (s : Specification) : Nat :=
  (s.label.operator.map (·.rank + 1)).getD 0

/-- The order of specifications: larger trees first, then leaves by threshold and text, and inner
nodes by operator, by the number of leaves and leaf by leaf. -/
def cmp (a b : Specification) : Ordering :=
  (Ord.compare b.size a.size).then <|
    if a.isEmpty && b.isEmpty then .eq
    else if a.isLeaf && b.isLeaf then compareLeaves a b
    else
      (Ord.compare a.operatorRank b.operatorRank).then <|
        (Ord.compare a.leaves.length b.leaves.length).then (compareAll a.leaves b.leaves)

/-- The bytes of hashes in ascending order, each hash once. -/
def ascending (hashes : List UInt64) : List UInt8 :=
  (Std.ExtTreeSet.ofList hashes).toList.flatMap Digest.littleEndian

mutual

/-- A hash of the structure that equal specifications share: thresholds take no part in it, and the
order and the number of equal children do not change it. -/
def hash : Specification → UInt64
  | node l [] =>
    Digest.hash (Digest.utf8 "leaf:" ++ Digest.utf8 (Text.lowerLetters (l.filter.getD "")))
  | node l (c :: cs) =>
    Digest.hash (Digest.utf8 "node:" ++ Digest.utf8 ((l.operator.map Operator.text).getD "") ++
      (if l.weights.isSome then Digest.utf8 ":weighted" else []) ++
      ascending (hash c :: hashes cs))

def hashes : List Specification → List UInt64
  | [] => []
  | c :: cs => hash c :: hashes cs

end

/-- Adds a specification to others, unless an equal one with the same hash is among them. -/
def addDistinct? (others : List Specification) (s : Specification) : Option (List Specification) :=
  if others.any fun t => t.hash == s.hash && t == s then none else some (s :: others)

/-- The hash as text. -/
def digest (s : Specification) : String :=
  Digest.label s.hash

end LinkDiscovery.Specification
