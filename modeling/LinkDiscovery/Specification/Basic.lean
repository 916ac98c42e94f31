import LinkDiscovery.Expression.Basic
import LinkDiscovery.Text.Blank
/-!
Specifications: trees that say when two entities are linked. A leaf compares two properties by a
measure; an inner node combines the links of its children. Every node carries the least confidence
that its links must reach.
-/

namespace LinkDiscovery

/-- The operators of inner nodes, in their order. -/
inductive Operator where
  | and
  | or
  | xor
  | minus
  deriving DecidableEq, Repr

namespace Operator

def text : Operator → String
  | .and => "AND"
  | .or => "OR"
  | .xor => "XOR"
  | .minus => "MINUS"

def all : List Operator :=
  [.and, .or, .xor, .minus]

/-- The operator with exactly this spelling. -/
def ofText? (word : String) : Option Operator :=
  all.find? fun o => o.text == word

/-- Only the children of `minus` cannot change places. -/
def isCommutative : Operator → Bool
  | .minus => false
  | _ => true

/-- The place of an operator in the order of operators. -/
def rank : Operator → Nat
  | .and => 0
  | .or => 1
  | .xor => 2
  | .minus => 3

end Operator

/-- The operator that a keyword stands for; smallest and largest scores and sums are kinds of
conjunction and disjunction. -/
def Keyword.operator : Keyword → Operator
  | .and | .min | .add => .and
  | .or | .max => .or
  | .xor => .xor
  | .minus => .minus

/-- What a node holds beside its children. -/
structure Label where
  operator : Option Operator := none
  /-- The least confidence of the links of this node. -/
  threshold : Float
  /-- The text of a leaf. -/
  filter : Option String := none
  /-- The text of the whole tree. -/
  full : String := ""
  measure : Option String := none
  property₁ : Option String := none
  property₂ : Option String := none
  /-- The coefficients of a sum. -/
  weights : Option (Float × Float) := none

/-- A node and its children. -/
inductive Specification where
  | node (label : Label) (children : List Specification)

namespace Specification

def label : Specification → Label
  | node l _ => l

def children : Specification → List Specification
  | node _ cs => cs

def threshold (s : Specification) : Float :=
  s.label.threshold

def isLeaf (s : Specification) : Bool :=
  s.children.isEmpty

/-- The text that the pairs of a sum are scored with. -/
def weighted (s : Specification) : Option String :=
  s.label.weights.map fun _ => s.label.full

/-- The measure of a leaf: the stored name, or else the text up to the first parenthesis. -/
def measure (s : Specification) : Option String :=
  if s.isLeaf then
    match s.label.measure.filter (· ≠ "") with
    | some name => some name
    | none => s.label.filter.map fun text =>
      Text.trim (String.ofList (text.toList.takeWhile (· ≠ '(')))
  else none

/-- Says whether a node asks for nothing: its threshold is met by all pairs, or it has neither a
text nor children. -/
def isEmpty (s : Specification) : Bool :=
  s.threshold ≤ 0 || (s.label.filter.isNone && s.children.isEmpty)

mutual

/-- The number of nodes that are not below an empty one. -/
def size : Specification → Nat
  | node l cs =>
    if (node l cs).isEmpty then 0 else 1 + sizes cs

def sizes : List Specification → Nat
  | [] => 0
  | c :: cs => size c + sizes cs

end

mutual

/-- The leaves from left to right. -/
def leaves : Specification → List Specification
  | node l [] => [node l []]
  | node _ (c :: cs) => leaves c ++ leavesOf cs

def leavesOf : List Specification → List Specification
  | [] => []
  | c :: cs => leaves c ++ leavesOf cs

end

/-- The way from a node to its first child or to one of the others. -/
def step (l : Label) (side : String) : String :=
  let operator := (l.operator.map Operator.text).getD "null"
  s!": {operator}->{side}"

mutual

/-- The leaves from left to right, each with `path` and the steps that lead to it. -/
def pathsFrom (path : String) : Specification → List (String × Specification)
  | node l [] => [(path, node l [])]
  | node l (c :: cs) =>
    pathsFrom (path ++ step l "left") c ++ pathsFromAll (path ++ step l "right") cs

def pathsFromAll (path : String) : List Specification → List (String × Specification)
  | [] => []
  | c :: cs => pathsFrom path c ++ pathsFromAll path cs

end

/-- The leaves from left to right, each with the steps from the root that lead to it. -/
def leafPaths (s : Specification) : List (String × Specification) :=
  pathsFrom "" s

/-- The properties that a leaf compares, as one text. -/
def propertyKey (s : Specification) : String :=
  s.label.property₁.getD "" ++ "_" ++ s.label.property₂.getD ""

/-- Says whether a member of a list comes again later in it. -/
def hasRepeat : List String → Bool
  | [] => false
  | k :: ks => ks.contains k || hasRepeat ks

/-- Says whether two leaves have the same property text. -/
def isRedundant (s : Specification) : Bool :=
  hasRepeat (s.leaves.map propertyKey)

end Specification

end LinkDiscovery
