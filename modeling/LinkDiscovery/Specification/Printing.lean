import LinkDiscovery.Expression.Grammar
import LinkDiscovery.Specification.Basic
/-!
Specifications for readers: as an indented tree, on one line, and leaves with shortened properties.
-/

namespace LinkDiscovery.Specification

open Decimal

/-- The part after the last `mark`, if there is one. -/
def afterLast? (mark : Char) (text : List Char) : Option (List Char) :=
  if text.contains mark then some (text.reverse.takeWhile (· ≠ mark)).reverse else none

/-- The last part of a property's address: what follows the last `#`, or else the last `/`. -/
def localName (property : String) : String :=
  let cs := property.toList
  String.ofList (((afterLast? '#' cs).or (afterLast? '/' cs)).getD cs)

/-- The text of a leaf with short property names and its threshold; a text that is no call is given
as it stands. -/
def short (s : Specification) : Option String :=
  s.label.filter.map fun text =>
    if text.isEmpty || !s.isLeaf then text
    else match Call.read text with
      | .ok call =>
        let arguments := ",".intercalate (call.arguments.map localName)
        s!"{call.measure}({arguments})|{twoPlaces s.threshold}"
      | .error _ => text

/-- A node without its children on one line. -/
def headLine (s : Specification) : String :=
  let operator := (s.label.operator.map Operator.text).getD "null"
  let text := s.short.getD "null"
  s!"({text}, {plain s.threshold}, {operator})"

mutual

/-- The tree on one line. -/
def oneLine : Specification → String
  | node l [] => headLine (node l [])
  | node l (c :: cs) =>
    headLine (node l (c :: cs)) ++ "\x7b" ++ ",".intercalate (oneLine c :: oneLines cs) ++ "\x7d"

def oneLines : List Specification → List String
  | [] => []
  | c :: cs => oneLine c :: oneLines cs

end

/-- A node without its children in the tree. -/
def treeLine (l : Label) : String :=
  match l.filter, l.operator, l.weights with
  | some text, _, _ => s!"{text} | {plain l.threshold}"
  | none, some o, some (c₁, c₂) =>
    s!"{o.text} [{plain c₁}, {plain c₂}] | {plain l.threshold}"
  | none, some o, none => s!"{o.text} | {plain l.threshold}"
  | none, none, _ => s!"<empty> | {plain l.threshold}"

mutual

/-- The lines of a tree whose root stands `depth` deep. -/
def treeLines (depth : Nat) : Specification → String
  | node l cs =>
    (if depth = 0 then "" else "\n" ++ String.ofList (List.replicate (2 * depth) ' ') ++ "-> ") ++
      treeLine l ++ childLines (depth + 1) cs

def childLines (depth : Nat) : List Specification → String
  | [] => ""
  | c :: cs => treeLines depth c ++ childLines depth cs

end

/-- The tree, one node a line, each level indented by two blanks. -/
def display (s : Specification) : String :=
  treeLines 0 s

end LinkDiscovery.Specification
