import LinkDiscovery.Specification.Basic
/-!
Building specifications. The text of an inner node is written anew from the texts and thresholds of
its children whenever they or its operator change.
-/

namespace LinkDiscovery.Specification

open Decimal

/-- A child as it appears in the text of its parent. -/
def termText (s : Specification) : String :=
  s!"{s.label.full}|{plain s.threshold}"

/-- The text of a node with this keyword over these children. -/
def listed (keyword : String) (children : List Specification) : String :=
  let terms := ", ".intercalate (children.map termText)
  s!"{keyword}({terms})"

/-- The text of a sum of two weighted children. -/
def summed (keyword : String) (weights : Float × Float) (left right : Specification) : String :=
  s!"{keyword}({plain weights.1}*{left.termText}, {plain weights.2}*{right.termText})"

/-- The specification without any content; it asks for nothing. -/
def empty : Specification :=
  node { threshold := -1 } []

/-- Writes the text of an inner node anew. -/
def refresh : Specification → Specification
  | node l [] => node l []
  | node l (c :: cs) =>
    node { l with full := listed ((l.operator.map Operator.text).getD "") (c :: cs) } (c :: cs)

/-- Turns a node into the leaf that compares two properties by a measure. -/
def setLeaf (s : Specification) (measure property₁ property₂ : String) : Specification :=
  let text := s!"{measure}({property₁},{property₂})"
  node
    { threshold := s.threshold
      filter := some text
      full := text
      measure := some measure
      property₁ := some property₁
      property₂ := some property₂ } []

/-- The leaf that compares two properties by a measure. -/
def leaf (measure property₁ property₂ : String) (threshold : Float) : Specification :=
  setLeaf (node { threshold } []) measure property₁ property₂

/-- An inner node over children. -/
def composite (operator : Operator) (threshold : Float) (children : List Specification) :
    Specification :=
  refresh (node { operator := some operator, threshold } children)

/-- Adds a last child. What makes a node a leaf goes, and so do the coefficients of a sum, which has
exactly two terms. -/
def addChild : Specification → Specification → Specification
  | node l cs, child =>
    refresh (node { operator := l.operator, threshold := l.threshold, full := l.full }
      (cs ++ [child]))

def setOperator : Specification → Operator → Specification
  | node l cs, operator => refresh (node { l with operator := some operator, weights := none } cs)

def setThreshold : Specification → Float → Specification
  | node l cs, threshold => node { l with threshold } cs

end LinkDiscovery.Specification
